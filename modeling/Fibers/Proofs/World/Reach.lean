import Fibers.Proofs.Machine.Act
import Mathlib.Logic.Relation

/-!
# Any schedule

The order in which threads move, tasks are taken and callbacks are completed is not for a fiber to
choose. `World.Step` lets every thread move at any time, any waiting task be run or dropped, and
anybody begin any user code on a thread of their own.

## Main results

`World.steps_make`, `World.steps_run` and `World.steps_perform`: the moves of a machine and the
schedule that it follows by itself are among these orders.
-/

namespace Fibers

variable {σ : Type}

namespace World

/-- One thread has changed. -/
def Replaces (world world' : World σ) (thread thread' : Thread σ) : Prop :=
  ∃ before after, world.threads = before ++ thread :: after ∧
    world'.threads = before ++ thread' :: after

theorem Replaces.get {world world' : World σ} {thread thread' : Thread σ}
    (replaces : Replaces world world' thread thread') :
    ∃ index, world.threads[index]? = some thread ∧
      world'.threads = world.threads.set index thread' := by
  obtain ⟨before, after, was, is⟩ := replaces
  exact ⟨before.length, by simp [was], by simp [was, is]⟩

theorem replaces_of_set {world world' : World σ} {index : Nat} {thread thread' : Thread σ}
    (was : world.threads[index]? = some thread)
    (set : world'.threads = world.threads.set index thread') :
    Replaces world world' thread thread' := by
  obtain ⟨small, rfl⟩ := List.getElem?_eq_some_iff.mp was
  refine ⟨world.threads.take index, world.threads.drop (index + 1), ?_, ?_⟩
  · rw [List.getElem_cons_drop, List.take_append_drop]
  · rw [set, List.set_eq_take_append_cons_drop, if_pos small]

/-- A thread in some place is the new one there, or it was there before. -/
theorem get_of_set {threads : List (Thread σ)} {i j : Nat} {thread thread' : Thread σ}
    (known : (threads.set j thread')[i]? = some thread) :
    j = i ∧ thread = thread' ∨ threads[i]? = some thread := by
  by_cases own : j = i
  · subst own
    obtain ⟨small, _⟩ := List.getElem?_eq_some_iff.mp known
    rw [List.getElem?_set_self (List.length_set ▸ small)] at known
    exact .inl ⟨rfl, (Option.some.inj known).symm⟩
  · exact .inr (by rwa [List.getElem?_set_ne own] at known)

theorem get_of_added {threads : List (Thread σ)} {i : Nat} {thread added : Thread σ}
    (known : (threads ++ [added])[i]? = some thread) :
    thread = added ∨ threads[i]? = some thread := by
  rw [List.getElem?_append] at known
  split at known
  next => exact .inr known
  next => exact .inl (List.mem_singleton.mp (List.mem_of_getElem? known))

/-- What may happen next, whoever schedules it. -/
inductive Step (world world' : World σ) : Prop where
  /-- A thread takes a step. -/
  | act {thread : Thread σ}
      (heap : world'.heap = (Machine.step world.heap thread).1)
      (threads : Replaces world world' thread (Machine.step world.heap thread).2)
  /-- An idle thread runs a waiting task, which need be neither the oldest nor the newest. -/
  | take {thread : Thread σ} {executor : ExecutorId} {before after : List (Task σ)}
      {task : Task σ} {rest : Queue (Task σ)} (idle : thread.control = [])
      (calm : thread.panicking = none)
      (waiting : (world.heap.waiting executor).toList = before ++ task :: after)
      (left : rest.toList = before ++ after)
      (heap : world'.heap = world.heap.setWaiting executor rest)
      (threads : Replaces world world' thread (thread.run task))
  /-- Waiting tasks are dropped. -/
  | drop {executor : ExecutorId} {rest : Queue (Task σ)}
      (left : rest.toList.Sublist (world.heap.waiting executor).toList)
      (heap : world'.heap = world.heap.setWaiting executor rest)
      (threads : world'.threads = world.threads)
  /-- User code begins on an idle thread, whose last panic is forgotten. -/
  | begin {thread : Thread σ} (idle : thread.control = []) (codes : List (Code σ Unit))
      (heap : world'.heap = world.heap)
      (threads : Replaces world world' thread
        { thread with control := codes.map .program, panicking := none })
  /-- A thread is made. -/
  | spawn {thread : Thread σ} (fresh : thread.pending = none) (codes : List (Code σ Unit))
      (control : thread.control = codes.map .program)
      (heap : world'.heap = world.heap) (threads : world'.threads = world.threads ++ [thread])
  /-- An executor is made. -/
  | engage {executor : Executor σ} (empty : executor.waiting.toList = [])
      (heap : world'.heap =
        { world.heap with executors := world.heap.executors.push executor })
      (threads : world'.threads = world.threads)
  /-- The clock, the world of user code or anything else changes that no fiber stands in. -/
  | outside (fibers : world'.heap.fibers = world.heap.fibers)
      (executors : world'.heap.executors = world.heap.executors)
      (suspensions : world'.heap.suspensions = world.heap.suspensions)
      (threads : world'.threads = world.threads)

/-- Some steps, one after another. -/
def Steps : World σ → World σ → Prop := Relation.ReflTransGen Step

/-- A machine without fibers, whose threads have nothing under way. -/
structure Fresh (world : World σ) : Prop where
  fibers : world.heap.fibers = #[]
  suspensions : world.heap.suspensions = #[]
  executors : ∀ executor ∈ world.heap.executors, executor.waiting.toList = []
  threads : ∀ thread ∈ world.threads, thread.pending = none ∧ thread.control = []

/-- A machine at any moment after it was made. -/
def Reachable (world : World σ) : Prop := ∃ origin : World σ, origin.Fresh ∧ origin.Steps world

theorem Reachable.steps {world world' : World σ} (h : world.Reachable)
    (steps : world.Steps world') :
    world'.Reachable := by
  obtain ⟨origin, fresh, before⟩ := h
  exact ⟨origin, fresh, before.trans steps⟩

/-- A run of a machine, in which moments may pass without a change. -/
structure Run (run : Nat → World σ) : Prop where
  origin : (run 0).Reachable
  step : ∀ n, (run n).Step (run (n + 1))

theorem Run.reachable {run : Nat → World σ} (h : Run run) (n : Nat) : (run n).Reachable := by
  induction n with
  | zero => exact h.origin
  | succ n ih => exact ih.steps (.single (h.step n))

theorem fresh_initial (state : σ) {executors : Array (Executor σ)} (level : LogLevel)
    {workers : Array (Thread σ)} (empty : ∀ executor ∈ executors, executor.waiting.toList = [])
    (idle : ∀ thread ∈ workers, thread.pending = none ∧ thread.control = []) :
    (initial state executors level workers).Fresh := by
  refine ⟨rfl, rfl, empty, fun thread mem => ?_⟩
  rcases List.mem_cons.mp mem with rfl | mem
  · exact ⟨rfl, rfl⟩
  · exact idle thread (Array.mem_def.mpr mem)

/-! ### The schedule of a machine -/

theorem Step.refl (world : World σ) : world.Step world := .outside rfl rfl rfl rfl

theorem replaces_main (heap heap' : Heap σ) (main main' : Thread σ) (others : Array (Thread σ)) :
    Replaces ⟨heap, main, others⟩ ⟨heap', main', others⟩ main main' :=
  ⟨[], others.toList, rfl, rfl⟩

theorem replaces_other (heap heap' : Heap σ) (main : Thread σ) {others : Array (Thread σ)}
    {index : Nat} {thread : Thread σ} (present : others[index]? = some thread)
    (thread' : Thread σ) :
    Replaces ⟨heap, main, others⟩ ⟨heap', main, others.setIfInBounds index thread'⟩ thread
      thread' := by
  obtain ⟨small, rfl⟩ := Array.getElem?_eq_some_iff.mp present
  refine ⟨main :: others.toList.take index, others.toList.drop (index + 1), ?_, ?_⟩
  · simp only [threads, List.cons_append, List.cons.injEq, true_and]
    rw [← Array.getElem_toList, List.getElem_cons_drop, List.take_append_drop]
  · simp only [threads, List.cons_append, List.cons.injEq, true_and, Array.toList_setIfInBounds]
    rw [List.set_eq_take_append_cons_drop, if_pos (by simpa using small)]

theorem step_stepMain (world : World σ) : world.Step world.stepMain :=
  .act rfl (replaces_main _ _ _ _ _)

theorem step_stepOther (index : Nat) (world : World σ) : world.Step (world.stepOther index) := by
  obtain ⟨heap, main, others⟩ := world
  rw [stepOther]
  split
  next thread present => exact .act rfl (replaces_other _ _ _ present _)
  next => exact .refl _

theorem idle_of_taskFor? {heap : Heap σ} {thread : Thread σ} {executor : ExecutorId}
    (task : taskFor? heap thread = some executor) :
    thread.control = [] ∧ thread.panicking = none := by
  unfold taskFor? at task
  split at task
  next idle calm => exact ⟨idle, calm⟩
  next => cases task

/-- A thread without work takes the oldest task of its executor, or nothing happens. -/
theorem takeTask_cases (index : Nat) (world : World σ) :
    world.takeTask index = world ∨
      ∃ thread executor task rest, thread.control = [] ∧ thread.panicking = none ∧
        (world.heap.waiting executor).toList = [] ++ task :: rest.toList ∧
        (world.takeTask index).heap = world.heap.setWaiting executor rest ∧
        Replaces world (world.takeTask index) thread (thread.run task) := by
  obtain ⟨heap, main, others⟩ := world
  rw [takeTask]
  split
  next thread present =>
    split
    next executor ready =>
      split
      next task rest popped =>
        obtain ⟨idle, calm⟩ := idle_of_taskFor? ready
        exact .inr ⟨thread, executor, task, rest, idle, calm, Queue.toList_of_popFront? popped, rfl,
          replaces_other _ _ _ present _⟩
      next => exact .inl rfl
    next => exact .inl rfl
  next => exact .inl rfl

theorem step_takeTask (index : Nat) (world : World σ) : world.Step (world.takeTask index) := by
  rcases takeTask_cases index world with
    same | ⟨thread, executor, task, rest, idle, calm, waiting, heap, threads⟩
  · rw [same]
    exact .refl _
  · exact .take idle calm waiting rfl heap threads

theorem steps_advanceTo (time : Nat) (world : World σ) : world.Steps (world.advanceTo time) := by
  obtain ⟨heap, main, others⟩ := world
  rw [advanceTo]
  generalize (heap.timers.filter (·.due ≤ time)).reverse.mergeSort (·.due ≤ ·.due) = due
  have later : Step ⟨heap, main, others⟩
      ⟨{ heap with now := time, timers := heap.timers.filter (time < ·.due) }, main, others⟩ :=
    .outside rfl rfl rfl rfl
  refine .head later ?_
  generalize { heap with now := time, timers := heap.timers.filter (time < ·.due) } = heap
  clear later
  induction due generalizing others with
  | nil => exact .refl
  | cons timer due ih =>
    have helped : Step ⟨heap, main, others⟩
        ⟨heap, main, others.push (helper ⟨others.size + 1⟩ timer)⟩ := by
      refine .spawn ?_ [.complete timer.callback timer.value .done] ?_ rfl
        (congrArg (main :: ·) Array.toList_push) <;> rfl
    exact .head helped (ih _)

/-- Every move of a machine consists of such steps. -/
theorem steps_make (world : World σ) (move : Move) : world.Steps (world.make move) := by
  cases move with
  | main => exact .single (step_stepMain world)
  | other index => exact .single (step_stepOther index world)
  | task index => exact .single (step_takeTask index world)
  | time now => exact steps_advanceTo now world

theorem steps_run (fuel : Nat) (world : World σ) : world.Steps (run fuel world) := by
  induction fuel generalizing world with
  | zero => exact .refl
  | succ fuel ih =>
    rw [run]
    split
    next move _ => exact (steps_make world move).trans (ih _)
    next => exact .refl

/-- A program that runs on the idle thread of the caller is one of those orders. -/
theorem steps_perform {world : World σ} (idle : world.main.control = [])
    (calm : world.main.panicking = none) (program : Code σ Unit) :
    world.Steps (world.perform program) := by
  obtain ⟨heap, ⟨id, name, role, pending, control, panicking⟩, others⟩ := world
  cases idle
  cases calm
  have begun : Step ⟨heap, ⟨id, name, role, pending, [], none⟩, others⟩
      ⟨heap, ⟨id, name, role, pending, [.program program], none⟩, others⟩ :=
    .begin rfl [program] rfl (replaces_main _ _ _ _ _)
  exact .head begun (steps_run patience _)

end World

end Fibers
