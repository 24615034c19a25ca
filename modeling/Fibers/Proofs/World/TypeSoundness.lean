import Fibers.Proofs.Effect.TypedCombinators
import Fibers.Proofs.Machine.TypedStep
import Fibers.Proofs.World.Nesting
import Fibers.Proofs.World.Trial

/-!
# Type soundness

Values lose their types when they enter the interpreter, and each frame recovers the type that it
expects. If all user code is well typed, this never fails, whatever the schedule, whoever is
interrupted and whatever the executors do; but what is read from the environments may have been
provided at another type.

## Main results

`World.type_soundness`: a typing of all handles grows with the run; frames and observers find values
and exits of their types, fibers end with exits of the types of their effects, and the only value
that is read at a wrong type is an environment. `World.typedSteps_make`: what a machine does by
itself is among what such a run may do.

## Proof strategy

`Machine.typed_step` says so of the step of one thread. What else happens makes no handles
(`World.TypedRun.next`), so a typing can be followed along the run.
-/

namespace Fibers

variable {σ : Type} {custody : Custody σ} {types : Typing}

/-! ### Reading at a type -/

/-- An observer receives the exits of fibers that produce values of a type. -/
inductive Observer.ReadsAt (A : Ty) : Observer σ → Prop where
  | resume (callback : CallbackId) : ReadsAt A (.resume A callback)
  | call (callback : Exit A.Carrier → Code σ Unit) :
      ReadsAt A (.call (.ofCode fun exit => callback (exit.recover A)))
  | answer (mailbox : MailboxId) : ReadsAt A (.answer A mailbox)

/-- An exit whose value, if it has one, is of a type. -/
def Exit.IsOf (A : Ty) (exit : Exit Erased) : Prop := ∃ own : Exit A.Carrier, exit = own.erase

/-- An observer finds an exit of the type that it recovers. -/
def Observer.Accepts (observer : Observer σ) (exit : Exit Erased) : Prop :=
  ∃ A, observer.ReadsAt A ∧ exit.IsOf A

/-- The next step of an activation reads a value or an exit at a type that is not its own, so that
the defect of a mismatch takes its place. -/
inductive Activation.Misreads (heap : Heap σ) : Activation σ → Prop where
  | value {id : FiberId} {value : Erased} {frame : Frame σ} {stack : List (Frame σ)}
      (other : ¬frame.Accepts value) : Misreads heap (.loop id (.value value) (frame :: stack))
  | environment {id : FiberId} {continuation : Continuation σ} {stack : List (Frame σ)}
      {environment : Erased} {outer : List Erased}
      (found : heap.environments id = environment :: outer)
      (other : ¬continuation.Accepts environment) :
      Misreads heap (.loop id (.node (.access continuation)) stack)
  | exit {exit : Exit Erased} {observer : Observer σ} {rest : List (Observer σ)}
      (other : ¬observer.Accepts exit) : Misreads heap (.notifying exit (observer :: rest))

/-- An activation reads the innermost environment at a type that is not its own. -/
def Activation.ReadsOther (heap : Heap σ) (activation : Activation σ) : Prop :=
  ∃ (id : FiberId) (R A : Ty) (f : R.Carrier → Code σ (Effect σ A)) (stack : List (Frame σ))
    (environment : Erased) (outer : List Erased),
    activation = .loop id (.node (.access (.call (Effect.typed f)))) stack ∧
      heap.environments id = environment :: outer ∧ environment.type ≠ R

theorem Typing.HoldsExit.isOf {A : Ty} {exit : Exit Erased} (h : types.HoldsExit A exit) :
    exit.IsOf A := by
  obtain ⟨own, same, _⟩ := h
  exact ⟨own, same⟩

theorem Observer.Typed.readsAt {A : Ty} {observer : Observer σ}
    (h : observer.Typed custody types A) : observer.ReadsAt A := by
  cases h with
  | resume => exact .resume _
  | call callback =>
    cases callback with
    | ofCode => exact .call _
  | answer => exact .answer _

/-- Of well typed continuations, only those that recover a type refuse values of others. -/
theorem Continuation.Typed.refuses {continuation : Continuation σ} {R : Ty} {flow : Flow}
    {value : Erased} (h : continuation.Typed custody types (.value R) flow)
    (other : ¬continuation.Accepts value) :
    value.type ≠ R ∧
      ∃ (A : Ty) (f : R.Carrier → Code σ (Effect σ A)), continuation = .call (Effect.typed f) := by
  cases h with
  | @call _ _ B f =>
    refine ⟨?_, B, f, rfl⟩
    rintro rfl
    exact other (.call f value.value)
  | ignore => exact absurd (.ignore _ _) other
  | again => exact absurd (.again _ _) other
  | constant => exact absurd (.constant _ _) other

/-- What a well typed thread misreads is an environment. -/
theorem Activation.Typed.readsOther {activation : Activation σ} {heap : Heap σ}
    (h : activation.Typed custody types) (misreads : activation.Misreads heap) :
    activation.ReadsOther heap := by
  cases misreads with
  | value other =>
    cases h with
    | loop _ focus stack =>
      cases focus with
      | value flows =>
        cases stack with
        | cons frame _ => exact absurd (frame.accepts flows) other
  | @environment id continuation stack environment outer found other =>
    cases h with
    | loop _ focus _ =>
      cases focus with
      | node current =>
        cases current with
        | @access _ R _ _ continuation_typed =>
          obtain ⟨differs, A, f, rfl⟩ := continuation_typed.refuses other
          exact ⟨id, R, A, f, stack, environment, outer, rfl, found, differs⟩
  | exit other =>
    cases h with
    | notifying holds observers =>
      exact absurd ⟨_, (observers _ List.mem_cons_self).readsAt, holds.isOf⟩ other

namespace World

/-! ### Runs of well typed code -/

/-- A machine that is well typed, with all its threads. -/
structure Typed (custody : Custody σ) (types : Typing) (world : World σ) : Prop where
  heap : world.heap.Typed custody types
  threads : ∀ thread ∈ world.threads, thread.Typed custody types

/-- What may happen next, whoever schedules it, if all user code is well typed. Code that begins
knows no handles but those that it finds in the shared world; a timer brings its own. -/
inductive TypedStep (custody : Custody σ) (world world' : World σ) : Prop where
  | act {thread : Thread σ} (heap : world'.heap = (Machine.step world.heap thread).1)
      (threads : Replaces world world' thread (Machine.step world.heap thread).2)
  | take {thread : Thread σ} {executor : ExecutorId} {before after : List (Task σ)}
      {task : Task σ} {rest : Queue (Task σ)} (idle : thread.control = [])
      (calm : thread.panicking = none)
      (waiting : (world.heap.waiting executor).toList = before ++ task :: after)
      (left : rest.toList = before ++ after)
      (heap : world'.heap = world.heap.setWaiting executor rest)
      (threads : Replaces world world' thread (thread.run task))
  | drop {executor : ExecutorId} {rest : Queue (Task σ)}
      (left : rest.toList.Sublist (world.heap.waiting executor).toList)
      (heap : world'.heap = world.heap.setWaiting executor rest)
      (threads : world'.threads = world.threads)
  | begin {thread : Thread σ} (idle : thread.control = []) (codes : List (Code σ Unit))
      (codes_typed : ∀ code ∈ codes, code.Typed custody Anything {} ())
      (heap : world'.heap = world.heap)
      (threads : Replaces world world' thread
        { thread with control := codes.map .program, panicking := none })
  | spawn {thread : Thread σ} (fresh : thread.pending = none) (codes : List (Code σ Unit))
      (codes_typed : ∀ code ∈ codes, code.Typed custody Anything {} ())
      (control : thread.control = codes.map .program)
      (heap : world'.heap = world.heap) (threads : world'.threads = world.threads ++ [thread])
  | ring {thread : Thread σ} {timer : Timer} (set : timer ∈ world.heap.timers)
      (fresh : thread.pending = none)
      (control : thread.control = [.program (.complete timer.callback timer.value .done)])
      (heap : world'.heap = world.heap) (threads : world'.threads = world.threads ++ [thread])
  | engage {executor : Executor σ} (empty : executor.waiting.toList = [])
      (heap : world'.heap =
        { world.heap with executors := world.heap.executors.push executor })
      (threads : world'.threads = world.threads)
  | outside (fibers : world'.heap.fibers = world.heap.fibers)
      (executors : world'.heap.executors = world.heap.executors)
      (suspensions : world'.heap.suspensions = world.heap.suspensions)
      (mailboxes : world'.heap.mailboxes = world.heap.mailboxes)
      (timers : world'.heap.timers ⊆ world.heap.timers)
      (kept : ∀ types, custody.holds types world.heap.world →
        custody.holds types world'.heap.world)
      (threads : world'.threads = world.threads)

/-- A run in which all user code is well typed, from any moment on. -/
structure TypedRun (custody : Custody σ) (run : Nat → World σ) : Prop where
  origin : (run 0).Reachable
  step : ∀ n, (run n).TypedStep custody (run (n + 1))

theorem TypedStep.step {world world' : World σ} (h : world.TypedStep custody world') :
    world.Step world' := by
  cases h with
  | act heap threads => exact .act heap threads
  | take idle calm waiting left heap threads => exact .take idle calm waiting left heap threads
  | drop left heap threads => exact .drop left heap threads
  | begin idle codes _ heap threads => exact .begin idle codes heap threads
  | spawn fresh codes _ control heap threads => exact .spawn fresh codes control heap threads
  | ring _ fresh control heap threads =>
    exact .spawn fresh [.complete _ _ .done] control heap threads
  | engage empty heap threads => exact .engage empty heap threads
  | outside fibers executors suspensions _ _ _ threads =>
    exact .outside fibers executors suspensions threads

theorem TypedRun.run {run : Nat → World σ} (h : TypedRun custody run) : Run run :=
  ⟨h.origin, fun n => (h.step n).step⟩

/-! ### The schedule of a machine -/

theorem TypedStep.refl (world : World σ) : world.TypedStep custody world :=
  .outside rfl rfl rfl rfl (List.Subset.refl _) (fun _ kept => kept) rfl

theorem typedStep_stepMain (world : World σ) : world.TypedStep custody world.stepMain :=
  .act rfl (replaces_main _ _ _ _ _)

theorem typedStep_stepOther (index : Nat) (world : World σ) :
    world.TypedStep custody (world.stepOther index) := by
  obtain ⟨heap, main, others⟩ := world
  rw [stepOther]
  split
  next thread present => exact .act rfl (replaces_other _ _ _ present _)
  next => exact .refl _

theorem typedStep_takeTask (index : Nat) (world : World σ) :
    world.TypedStep custody (world.takeTask index) := by
  rcases takeTask_cases index world with
    same | ⟨thread, executor, task, rest, idle, calm, waiting, heap, threads⟩
  · rw [same]
    exact .refl _
  · exact .take idle calm waiting rfl heap threads

/-- The timers that are due ring while they are set, and then the clock goes on. -/
theorem typedSteps_advanceTo (time : Nat) (world : World σ) :
    Relation.ReflTransGen (TypedStep custody) world (world.advanceTo time) := by
  obtain ⟨heap, main, others⟩ := world
  rw [advanceTo]
  generalize dues : (heap.timers.filter (·.due ≤ time)).reverse.mergeSort (·.due ≤ ·.due) = due
  have set : ∀ timer ∈ due, timer ∈ heap.timers := by
    intro timer mem
    rw [← dues, List.mem_mergeSort, List.mem_reverse] at mem
    exact (List.mem_filter.mp mem).1
  have later (others : Array (Thread σ)) : TypedStep custody ⟨heap, main, others⟩
      ⟨{ heap with now := time, timers := heap.timers.filter (time < ·.due) }, main, others⟩ :=
    .outside rfl rfl rfl rfl (List.filter_subset_self _) (fun _ kept => kept) rfl
  clear dues
  induction due generalizing others with
  | nil => exact .single (later others)
  | cons timer due ih =>
    have rung : TypedStep custody ⟨heap, main, others⟩
        ⟨heap, main, others.push (helper ⟨others.size + 1⟩ timer)⟩ := by
      refine .ring (set timer List.mem_cons_self) ?_ ?_ rfl
        (congrArg (main :: ·) Array.toList_push) <;> rfl
    exact .head rung (ih _ fun other mem => set other (List.mem_cons_of_mem _ mem))

/-- Every move of a machine consists of such steps. -/
theorem typedSteps_make (world : World σ) (move : Move) :
    Relation.ReflTransGen (TypedStep custody) world (world.make move) := by
  cases move with
  | main => exact .single (typedStep_stepMain world)
  | other index => exact .single (typedStep_stepOther index world)
  | task index => exact .single (typedStep_takeTask index world)
  | time now => exact typedSteps_advanceTo now world

/-! ### A step of a machine -/

variable {world world' : World σ}

/-- One thread has changed, and the heap. -/
theorem Typed.replace {types' : Typing} {thread thread' : Thread σ}
    (h : world.Typed custody types) (le : types ≤ types')
    (replaces : Replaces world world' thread thread')
    (heap_typed : world'.heap.Typed custody types')
    (thread_typed : thread'.Typed custody types') : world'.Typed custody types' := by
  obtain ⟨before, after, was, is⟩ := replaces
  refine ⟨heap_typed, fun other mem => ?_⟩
  rw [is, List.mem_append, List.mem_cons] at mem
  rcases mem with mem | rfl | mem
  · exact (h.threads other (by simp [was, mem])).mono le
  · exact thread_typed
  · exact (h.threads other (by simp [was, mem])).mono le

theorem Replaces.typed {thread thread' : Thread σ} (replaces : Replaces world world' thread thread')
    (h : world.Typed custody types) : thread.Typed custody types := by
  obtain ⟨before, after, was, _⟩ := replaces
  exact h.threads thread (by simp [was])

/-- Programs that begin on a thread are well typed with whatever has been handed out. -/
theorem typed_programs {thread : Thread σ} {codes : List (Code σ Unit)}
    (codes_typed : ∀ code ∈ codes, code.Typed custody Anything {} ())
    (control : thread.control = codes.map .program)
    (pending : ∀ queue ∈ thread.pending, ∀ batch ∈ queue.toList, batch.Typed custody types) :
    thread.Typed custody types := by
  refine ⟨fun activation mem => ?_, pending⟩
  rw [control, List.mem_map] at mem
  obtain ⟨code, mem, rfl⟩ := mem
  exact .program ((codes_typed code mem).later (fun _ _ => trivial) (Typing.empty_le types))

/-- Registrations are those of suspensions of the same fiber. -/
theorem Run.meets {run : Nat → World σ} (h : Run run) {n : Nat} {thread : Thread σ}
    (known : thread ∈ (run n).threads) (id : FiberId) (callback : CallbackId)
    (code : Code σ Unit) (stack : List (Frame σ))
    (next : thread.next? = some (.loop id (.registering callback code) stack)) :
    ∃ state, (run n).heap.suspension? callback = some ⟨id, state⟩ := by
  obtain ⟨_, rest, control⟩ := Thread.next?_eq_some_iff.mp next
  obtain ⟨⟨_, state⟩, present, rfl, _⟩ :=
    (h.owned n).meeting _ ⟨thread, known, control ▸ List.mem_cons_self⟩
  exact ⟨state, present⟩

/-- A step of a thread keeps a machine well typed, and a fiber that it makes has the type of its
effect. -/
theorem StepsAt.typed {run : Nat → World σ} {n i : Nat} {thread : Thread σ}
    (steps : StepsAt run n i thread) (h : Run run) (typed : (run n).Typed custody types) :
    ∃ types', types ≤ types' ∧ (run (n + 1)).Typed custody types' ∧
      ∀ batch, thread.next?.bind (Activation.born? (run n).heap) = some batch →
        ∃ A, batch.current.Typed custody types (.value A) ∧ types'.Fiber batch.fiber A := by
  have known := List.mem_of_getElem? steps.before
  obtain ⟨types', le, after, made⟩ :=
    Machine.typed_step typed.heap (typed.threads thread known) (h.meets known)
  exact ⟨types', le, typed.replace le steps.replaces (steps.heap ▸ after.heap) after.thread, made⟩

/-- What else happens keeps a machine well typed, with the same handles. -/
theorem TypedRun.next {run : Nat → World σ} (h : TypedRun custody run) {n : Nat}
    (typed : (run n).Typed custody types) :
    ∃ types', types ≤ types' ∧ (run (n + 1)).Typed custody types' := by
  have here := Typing.le_refl types
  cases h.step n with
  | act heap threads =>
    obtain ⟨i, present, set⟩ := threads.get
    obtain ⟨types', le, typed', _⟩ := StepsAt.typed ⟨present, heap, set⟩ h.run typed
    exact ⟨types', le, typed'⟩
  | @take thread executor before after task rest idle calm waiting left heap threads =>
    have tasks := typed.heap.waiting executor
    rw [waiting] at tasks
    have rest_typed := typed.heap.setWaiting executor rest fun other mem => by
      rw [left] at mem
      rcases List.mem_append.mp mem with mem | mem
      · exact tasks other (by simp [mem])
      · exact tasks other (by simp [mem])
    exact ⟨types, here, typed.replace here threads (heap ▸ rest_typed)
      ((threads.typed typed).run (tasks task (by simp)))⟩
  | @drop executor rest left heap threads =>
    have rest_typed := typed.heap.setWaiting executor rest fun other mem =>
      typed.heap.waiting executor other (left.subset mem)
    exact ⟨types, here, heap ▸ rest_typed, threads ▸ typed.threads⟩
  | @begin thread idle codes codes_typed heap threads =>
    exact ⟨types, here, typed.replace here threads (heap ▸ typed.heap)
      (typed_programs codes_typed rfl (threads.typed typed).pending)⟩
  | @spawn thread fresh codes codes_typed control heap threads =>
    refine ⟨types, here, heap ▸ typed.heap, fun other mem => ?_⟩
    rw [threads, List.mem_append, List.mem_singleton] at mem
    rcases mem with mem | rfl
    · exact typed.threads other mem
    · exact typed_programs codes_typed control (by rw [fresh]; nofun)
  | @ring thread timer set fresh control heap threads =>
    refine ⟨types, here, heap ▸ typed.heap, fun other mem => ?_⟩
    rw [threads, List.mem_append, List.mem_singleton] at mem
    rcases mem with mem | rfl
    · exact typed.threads other mem
    · obtain ⟨A, own, flows⟩ := typed.heap.timers timer set
      refine ⟨fun activation mem => ?_, by rw [fresh]; nofun⟩
      rw [control, List.mem_singleton] at mem
      rw [mem]
      -- A timer completes its callback with the value that was set aside for it.
      exact .program (.complete own flows (.done trivial))
  | @engage executor empty heap threads =>
    exact ⟨types, here, heap ▸ typed.heap.engage empty, threads ▸ typed.threads⟩
  | outside fibers executors suspensions mailboxes timers kept threads =>
    have heap := typed.heap.of_tables fibers suspensions mailboxes executors
      (fun timer mem => typed.heap.timers timer (timers mem)) (kept types typed.heap.world)
    exact ⟨types, here, heap, threads ▸ typed.threads⟩

/-! ### The typing of a run -/

/-- A machine without fibers, callbacks and mailboxes is well typed with nothing handed out. -/
theorem typed_of_fresh (fresh : world.Fresh) (mailboxes : world.heap.mailboxes = #[])
    (timers : world.heap.timers = []) (kept : custody.holds {} world.heap.world) :
    world.Typed custody {} := by
  have nothing {α : Type} {items : Array α} (none : items = #[]) (index : Nat) :
      items[index]? = Option.none := by rw [none]; rfl
  refine ⟨⟨⟨fun id fiber present => ?_, fun callback suspension present => ?_,
    fun mailbox box present => ?_, by rw [timers]; nofun, fun id executor present task mem => ?_,
    kept⟩, ?_, ?_, ?_⟩, fun thread known => ?_⟩
  · cases (nothing fresh.fibers _).symm.trans present
  · cases (nothing fresh.suspensions _).symm.trans present
  · cases (nothing mailboxes _).symm.trans present
  · rw [fresh.executors executor (Array.mem_of_getElem? present)] at mem
    cases mem
  · rw [fresh.fibers]; rfl
  · rw [fresh.suspensions]; rfl
  · rw [mailboxes]; rfl
  · obtain ⟨pending, control⟩ := fresh.threads thread known
    exact ⟨by rw [control]; nofun, by rw [pending]; nofun⟩

variable {run : Nat → World σ} {n i j : Nat} {thread thread' : Thread σ}

/-- A fiber that a thread makes is made by no other. -/
theorem StepsAt.eq_of_born {batch : Batch σ} (steps : StepsAt run n i thread)
    (steps' : StepsAt run n j thread')
    (born : thread'.next?.bind (Activation.born? (run n).heap) = some batch) : j = i := by
  by_contra other
  have same := (steps.elsewhere (Ne.symm other)).symm.trans steps'.after
  rw [steps'.before] at same
  exact Machine.step_ne_of_born born (Option.some.inj same).symm

/-- With what was handed out so far, the next moment is well typed, and so is the fiber that is made
by then. -/
theorem TypedRun.follow (h : TypedRun custody run) (typed : (run n).Typed custody types) :
    ∃ types', types ≤ types' ∧ (run (n + 1)).Typed custody types' ∧
      ∀ i thread batch, StepsAt run n i thread →
        thread.next?.bind (Activation.born? (run n).heap) = some batch →
        ∃ A, batch.current.Typed custody types (.value A) ∧ types'.Fiber batch.fiber A := by
  by_cases makes : ∃ i thread batch, StepsAt run n i thread ∧
      thread.next?.bind (Activation.born? (run n).heap) = some batch
  · obtain ⟨i, thread, batch, steps, _⟩ := makes
    obtain ⟨types', le, typed', made⟩ := steps.typed h.run typed
    refine ⟨types', le, typed', fun j thread' batch' steps' born => ?_⟩
    obtain rfl := steps.eq_of_born steps' born
    cases steps.before.symm.trans steps'.before
    exact made batch' born
  · obtain ⟨types', le, typed'⟩ := h.next typed
    exact ⟨types', le, typed', fun i thread batch steps born =>
      absurd ⟨i, thread, batch, steps, born⟩ makes⟩

/-- A machine in which everything is read at its type, but for environments. -/
structure TypeSafe (types : Typing) (world : World σ) : Prop where
  /-- A fiber has a type. Whoever waits for its exit reads it at this type, and its exit has it. -/
  fibers : ∀ id fiber, world.heap.fiber? id = some fiber → ∃ A, types.Fiber id A ∧
    (∀ observers, fiber.progress = .running observers →
      ∀ observer ∈ observers, observer.ReadsAt A) ∧
    ∀ exit, world.heap.poll id = some exit → exit.IsOf A
  /-- A frame is applied to a value of the type that it recovers. -/
  frames : ∀ thread ∈ world.threads, ∀ id value frame stack,
    thread.next? = some (.loop id (.value value) (frame :: stack)) → frame.Accepts value
  /-- An observer is told an exit of the type that it recovers. -/
  observers : ∀ thread ∈ world.threads, ∀ exit observer rest,
    thread.next? = some (.notifying exit (observer :: rest)) → observer.Accepts exit
  /-- Only an environment may be read at a type that is not its own. -/
  defects : ∀ thread ∈ world.threads, ∀ activation, thread.next? = some activation →
    activation.Misreads world.heap → activation.ReadsOther world.heap

theorem Typed.safe (h : world.Typed custody types) : world.TypeSafe types where
  fibers id fiber present := by
    obtain ⟨A, own, typed⟩ := h.heap.fibers id fiber present
    refine ⟨A, own, fun observers running observer mem => ?_, fun exit ended =>
      (h.heap.poll own ended).isOf⟩
    have progress := typed.progress
    rw [running] at progress
    cases progress with
    | running observers_typed => exact (observers_typed observer mem).readsAt
  frames thread known id value frame stack next := by
    obtain ⟨_, rest, control⟩ := Thread.next?_eq_some_iff.mp next
    cases (h.threads thread known).control _ (control ▸ List.mem_cons_self) with
    | loop _ focus stack =>
      cases focus with
      | value flows =>
        cases stack with
        | cons frame _ => exact frame.accepts flows
  observers thread known exit observer rest next := by
    obtain ⟨_, rest, control⟩ := Thread.next?_eq_some_iff.mp next
    cases (h.threads thread known).control _ (control ▸ List.mem_cons_self) with
    | notifying holds observers =>
      exact ⟨_, (observers observer List.mem_cons_self).readsAt, holds.isOf⟩
  defects thread known activation next misreads := by
    obtain ⟨_, rest, control⟩ := Thread.next?_eq_some_iff.mp next
    have typed := (h.threads thread known).control activation (control ▸ List.mem_cons_self)
    exact typed.readsOther misreads

/-- Whatever the types of the handles that there are at first, they can be continued along a run in
which all user code is well typed: a fiber that is made gets the type of its effect, and the machine
stays well typed. -/
theorem TypedRun.exists_typing (h : TypedRun custody run) (typed : (run 0).Typed custody types) :
    ∃ typing : Nat → Typing, typing 0 = types ∧ (∀ n, typing n ≤ typing (n + 1)) ∧
      (∀ n i thread batch, StepsAt run n i thread →
        thread.next?.bind (Activation.born? (run n).heap) = some batch →
        ∃ A, batch.current.Typed custody (typing n) (.value A) ∧
          (typing (n + 1)).Fiber batch.fiber A) ∧
      ∀ n, (run n).Typed custody (typing n) := by
  have follow : ∀ n (before : { types // (run n).Typed custody types }),
      ∃ after : { types // (run (n + 1)).Typed custody types }, before.val ≤ after.val ∧
        ∀ i thread batch, StepsAt run n i thread →
          thread.next?.bind (Activation.born? (run n).heap) = some batch →
          ∃ A, batch.current.Typed custody before.val (.value A) ∧
            after.val.Fiber batch.fiber A := by
    rintro n ⟨before, typed⟩
    obtain ⟨after, le, typed', made⟩ := h.follow typed
    exact ⟨⟨after, typed'⟩, le, made⟩
  choose next grows made using follow
  let chain : (n : Nat) → { types // (run n).Typed custody types } :=
    fun n => Nat.rec ⟨types, typed⟩ (fun n before => next n before) n
  exact ⟨fun n => (chain n).val, rfl, fun n => grows n (chain n), fun n => made n (chain n),
    fun n => (chain n).property⟩

theorem TypedRun.tail (h : TypedRun custody run) : TypedRun custody fun n => run (n + 1) :=
  ⟨h.run.reachable 1, fun n => h.step (n + 1)⟩

/-- The root fiber of an effect that a program starts has the type of the effect. -/
theorem StepsAt.typed_root {code : Code σ Unit} {effect : Effect σ A}
    (steps : StepsAt run n i thread) (typed : (run n).Typed custody types)
    (next : thread.next? = some (.program code)) (effect_typed : effect.Typed custody types)
    (starts : code.Starts custody Anything types () A effect.node) :
    ∃ types' root, types ≤ types' ∧ (run (n + 1)).Typed custody types' ∧
      code.root? (run n).heap = some ⟨root, effect.node, []⟩ ∧ types'.Fiber root A := by
  have known := List.mem_of_getElem? steps.before
  obtain ⟨types', root, le, after, root_eq, own⟩ :=
    Machine.typed_step_starts typed.heap (typed.threads thread known) next effect_typed starts
  have typed' := typed.replace le steps.replaces (steps.heap ▸ after.heap) after.thread
  exact ⟨types', root, le, typed', root_eq, own⟩

/-- Whatever the types of the handles that there are when a program starts a well typed effect, they
can be continued along any run in which all user code is well typed: the root fiber gets the type of
the effect and ends with an exit of this type, as does any fiber that is made later, and everything
is read at its type, but for environments. -/
theorem type_soundness {code : Code σ Unit} {effect : Effect σ A} (h : TypedRun custody run)
    (typed : (run 0).Typed custody types) (steps : StepsAt run 0 i thread)
    (next : thread.next? = some (.program code)) (effect_typed : effect.Typed custody types)
    (starts : code.Starts custody Anything types () A effect.node) :
    ∃ (typing : Nat → Typing) (root : FiberId), typing 0 = types ∧
      (∀ n, typing n ≤ typing (n + 1)) ∧ (∀ n, (run n).TypeSafe (typing n)) ∧
      code.root? (run 0).heap = some ⟨root, effect.node, []⟩ ∧
      (∀ n exit, (run (n + 1)).heap.poll root = some exit → exit.IsOf A) ∧
      ∀ n j thread' batch, StepsAt run (n + 1) j thread' →
        thread'.next?.bind (Activation.born? (run (n + 1)).heap) = some batch →
        ∃ B, batch.current.Typed custody (typing (n + 1)) (.value B) ∧
          ∀ m exit, n + 2 ≤ m → (run m).heap.poll batch.fiber = some exit → exit.IsOf B := by
  obtain ⟨types', root, le, typed', root_eq, own⟩ :=
    steps.typed_root typed next effect_typed starts
  -- The first step makes the root fiber; the types of the rest of the run extend its type.
  obtain ⟨typing, first, grows, made, well⟩ := h.tail.exists_typing typed'
  have mono {m m' : Nat} (later : m ≤ m') : typing m ≤ typing m' := by
    induction m', later using Nat.le_induction with
    | base => exact Typing.le_refl _
    | succ m' _ ih => exact Typing.le_trans ih (grows m')
  refine ⟨fun n => n.casesOn types typing, root, rfl, ?_, ?_, root_eq, ?_, ?_⟩
  · intro n
    cases n with
    | zero =>
      show types ≤ typing 0
      rw [first]
      exact le
    | succ n => exact grows n
  · intro n
    cases n with
    | zero => exact typed.safe
    | succ n => exact (well n).safe
  · intro n exit ended
    have own' : (typing n).Fiber root A := (first ▸ own).mono (mono n.zero_le)
    exact ((well n).heap.poll own' ended).isOf
  · intro n j thread' batch steps' born
    obtain ⟨B, batch_typed, child⟩ := made n j thread' batch
      ⟨steps'.before, steps'.heap, steps'.threads⟩ born
    refine ⟨B, batch_typed, fun m exit later ended => ?_⟩
    obtain ⟨m, rfl⟩ := Nat.exists_eq_add_of_le' (show 1 ≤ m by omega)
    exact ((well m).heap.poll (child.mono (mono (by omega))) ended).isOf

/-! ### An environment of another type -/

theorem typedRun_trial (state : σ) (program : Code σ Unit) :
    TypedRun custody (trial state program) :=
  ⟨reachable_trial_zero state program, fun _ => typedStep_stepMain _⟩

theorem typed_trial {program : Code σ Unit} (state : σ) (kept : custody.holds {} state)
    (program_typed : program.Typed custody Anything {} ()) :
    (trial state program 0).Typed custody {} := by
  have bare_typed : (bare state).Typed custody {} := typed_of_fresh (fresh_bare state) rfl rfl kept
  have codes_typed : ∀ code ∈ [program], code.Typed custody Anything {} () := by
    intro code mem
    rw [List.mem_singleton.mp mem]
    exact program_typed
  refine bare_typed.replace (Typing.le_refl _) (replaces_main _ _ _ _ #[]) bare_typed.heap ?_
  exact typed_programs codes_typed rfl nofun

/-- A number is read from an environment that is a truth value. -/
def misread : Effect Unit .int := (Effect.environment : Effect Unit .int).provide (R := .bool) true

/-- The exit of what is read at a wrong type is a defect, and as such of the type of the effect. -/
theorem type_soundness_misread :
    (∃ (typing : Nat → Typing) (root : FiberId), typing 0 = {} ∧
      (∀ n, typing n ≤ typing (n + 1)) ∧
      (∀ n, (trial () (launched misread) n).TypeSafe (typing n)) ∧
      (launched misread).root? (trial () (launched misread) 0).heap =
        some ⟨root, misread.node, []⟩ ∧
      (∀ n exit, (trial () (launched misread) (n + 1)).heap.poll root = some exit →
        exit.IsOf .int) ∧
      ∀ n j thread batch, StepsAt (trial () (launched misread)) (n + 1) j thread →
        thread.next?.bind (Activation.born? (trial () (launched misread) (n + 1)).heap) =
          some batch →
        ∃ B, batch.current.Typed ⟨fun _ _ => True, fun _ _ => trivial⟩ (typing (n + 1))
            (.value B) ∧
          ∀ m exit, n + 2 ≤ m → (trial () (launched misread) m).heap.poll batch.fiber =
            some exit → exit.IsOf B) ∧
    (trial () (launched misread) 16).heap.poll ⟨1⟩ =
      some (.failure (Cause.typeMismatch .int)) := by
  have starts : (launched misread).Starts ⟨fun _ _ => True, fun _ _ => trivial⟩ Anything {} ()
      .int misread.node := .launch fun _ _ _ _ => .done trivial
  have misread_typed : misread.Typed ⟨fun _ _ => True, fun _ _ => trivial⟩ {} :=
    Effect.Typed.provide Effect.typed_environment trivial
  have typed := typed_trial () trivial (starts.typed misread_typed)
  have steps : StepsAt (trial () (launched misread)) 0 0 (trial () (launched misread) 0).main :=
    ⟨rfl, rfl, rfl⟩
  refine ⟨?_, rfl⟩
  exact type_soundness (typedRun_trial () (launched misread)) typed steps rfl misread_typed starts

end World

end Fibers
