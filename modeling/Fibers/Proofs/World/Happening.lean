import Fibers.Proofs.World.TypeSoundness

/-!
# What happens to a machine

A step of a machine says what the machine becomes. A happening says what is done to it, so that the
same can be done to another machine.

## Main results

`World.step_iff_happens` and `World.typedStep_iff_happens`: a step is a happening, and if all user
code is well typed, a well typed one.
-/

namespace Fibers

variable {σ : Type} {custody : Custody σ}

/-- What can happen to a machine. -/
inductive Happening (σ : Type) where
  /-- A thread takes a step. -/
  | act (index : Nat)
  /-- A thread runs one of the waiting tasks. -/
  | take (index : Nat) (executor : ExecutorId) (position : Nat)
  /-- Waiting tasks are dropped. -/
  | drop (executor : ExecutorId)
  /-- User code begins on a thread. -/
  | begin (index : Nat) (codes : List (Code σ Unit))
  /-- A thread is made. -/
  | spawn (thread : Thread σ)
  /-- An executor is made. -/
  | engage (executor : Executor σ)
  /-- What no fiber stands in becomes as in the given heap. -/
  | outside (heap : Heap σ)

/-- What happens brings in well typed code only. -/
def Happening.Typed (custody : Custody σ) (heap : Heap σ) : Happening σ → Prop
  | .act _ | .take .. | .drop _ | .engage _ => True
  | .begin _ codes => ∀ code ∈ codes, code.Typed custody Anything {} ()
  | .spawn thread =>
    (∃ codes : List (Code σ Unit), thread.control = codes.map .program ∧
      ∀ code ∈ codes, code.Typed custody Anything {} ()) ∨
    ∃ timer ∈ heap.timers,
      thread.control = [.program (.complete timer.callback timer.value .done)]
  | .outside heap' =>
    heap'.mailboxes = heap.mailboxes ∧ heap'.timers ⊆ heap.timers ∧
      ∀ types, custody.holds types heap.world → custody.holds types heap'.world

namespace World

/-- One thread has changed, and it is known which. -/
def ReplacesAt (index : Nat) (world next : World σ) (thread thread' : Thread σ) : Prop :=
  ∃ before after, before.length = index ∧ world.threads = before ++ thread :: after ∧
    next.threads = before ++ thread' :: after

/-- What is done to a machine, and what it becomes. -/
inductive Happens (world next : World σ) : Happening σ → Prop where
  | act {index : Nat} {thread : Thread σ}
      (heap : next.heap = (Machine.step world.heap thread).1)
      (threads : ReplacesAt index world next thread (Machine.step world.heap thread).2) :
      Happens world next (.act index)
  | take {index : Nat} {thread : Thread σ} {executor : ExecutorId} {before after : List (Task σ)}
      {task : Task σ} {rest : Queue (Task σ)} (idle : thread.control = [])
      (calm : thread.panicking = none)
      (waiting : (world.heap.waiting executor).toList = before ++ task :: after)
      (left : rest.toList = before ++ after)
      (heap : next.heap = world.heap.setWaiting executor rest)
      (threads : ReplacesAt index world next thread (thread.run task)) :
      Happens world next (.take index executor before.length)
  | drop {executor : ExecutorId} {rest : Queue (Task σ)}
      (left : rest.toList.Sublist (world.heap.waiting executor).toList)
      (heap : next.heap = world.heap.setWaiting executor rest)
      (threads : next.threads = world.threads) : Happens world next (.drop executor)
  | begin {index : Nat} {thread : Thread σ} (idle : thread.control = [])
      (codes : List (Code σ Unit)) (heap : next.heap = world.heap)
      (threads : ReplacesAt index world next thread
        { thread with control := codes.map .program, panicking := none }) :
      Happens world next (.begin index codes)
  | spawn {thread : Thread σ} (fresh : thread.pending = none) (codes : List (Code σ Unit))
      (control : thread.control = codes.map .program) (heap : next.heap = world.heap)
      (threads : next.threads = world.threads ++ [thread]) : Happens world next (.spawn thread)
  | engage {executor : Executor σ} (empty : executor.waiting.toList = [])
      (heap : next.heap = { world.heap with executors := world.heap.executors.push executor })
      (threads : next.threads = world.threads) : Happens world next (.engage executor)
  | outside (heap : Heap σ)
      (becomes : next.heap =
        { heap with
          fibers := world.heap.fibers
          executors := world.heap.executors
          suspensions := world.heap.suspensions })
      (threads : next.threads = world.threads) : Happens world next (.outside heap)

variable {world next : World σ} {happening : Happening σ}

theorem ReplacesAt.replaces {index : Nat} {thread thread' : Thread σ}
    (h : ReplacesAt index world next thread thread') : Replaces world next thread thread' := by
  obtain ⟨before, after, -, was, is⟩ := h
  exact ⟨before, after, was, is⟩

theorem Replaces.exists_at {thread thread' : Thread σ} (h : Replaces world next thread thread') :
    ∃ index, ReplacesAt index world next thread thread' := by
  obtain ⟨before, after, was, is⟩ := h
  exact ⟨before.length, before, after, rfl, was, is⟩

theorem Happens.step (h : Happens world next happening) : world.Step next := by
  cases h with
  | act heap threads => exact .act heap threads.replaces
  | take idle calm waiting left heap threads =>
    exact .take idle calm waiting left heap threads.replaces
  | drop left heap threads => exact .drop left heap threads
  | begin idle codes heap threads => exact .begin idle codes heap threads.replaces
  | spawn fresh codes control heap threads => exact .spawn fresh codes control heap threads
  | engage empty heap threads => exact .engage empty heap threads
  | outside heap becomes threads =>
    exact .outside (by rw [becomes]) (by rw [becomes]) (by rw [becomes]) threads

theorem happens_outside (fibers : next.heap.fibers = world.heap.fibers)
    (executors : next.heap.executors = world.heap.executors)
    (suspensions : next.heap.suspensions = world.heap.suspensions)
    (threads : next.threads = world.threads) : Happens world next (.outside next.heap) :=
  .outside next.heap (by rw [← fibers, ← executors, ← suspensions]) threads

/-- Steps are happenings. -/
theorem step_iff_happens : world.Step next ↔ ∃ happening, Happens world next happening := by
  refine ⟨fun step => ?_, fun ⟨_, happens⟩ => happens.step⟩
  cases step with
  | act heap threads =>
    obtain ⟨index, threads⟩ := threads.exists_at
    exact ⟨_, .act heap threads⟩
  | take idle calm waiting left heap threads =>
    obtain ⟨index, threads⟩ := threads.exists_at
    exact ⟨_, .take idle calm waiting left heap threads⟩
  | drop left heap threads => exact ⟨_, .drop left heap threads⟩
  | begin idle codes heap threads =>
    obtain ⟨index, threads⟩ := threads.exists_at
    exact ⟨_, .begin idle codes heap threads⟩
  | spawn fresh codes control heap threads => exact ⟨_, .spawn fresh codes control heap threads⟩
  | engage empty heap threads => exact ⟨_, .engage empty heap threads⟩
  | outside fibers executors suspensions threads =>
    exact ⟨_, happens_outside fibers executors suspensions threads⟩

/-- Steps of machines in which all user code is well typed are well typed happenings. -/
theorem typedStep_iff_happens : world.TypedStep custody next ↔
    ∃ happening, happening.Typed custody world.heap ∧ Happens world next happening := by
  constructor
  · intro step
    cases step with
    | act heap threads =>
      obtain ⟨index, threads⟩ := threads.exists_at
      exact ⟨.act index, trivial, .act heap threads⟩
    | take idle calm waiting left heap threads =>
      obtain ⟨index, threads⟩ := threads.exists_at
      exact ⟨.take index _ _, trivial, .take idle calm waiting left heap threads⟩
    | drop left heap threads => exact ⟨.drop _, trivial, .drop left heap threads⟩
    | begin idle codes codes_typed heap threads =>
      obtain ⟨index, threads⟩ := threads.exists_at
      exact ⟨.begin index codes, codes_typed, .begin idle codes heap threads⟩
    | spawn fresh codes codes_typed control heap threads =>
      exact ⟨.spawn _, .inl ⟨codes, control, codes_typed⟩,
        .spawn fresh codes control heap threads⟩
    | @ring thread timer set fresh control heap threads =>
      exact ⟨.spawn thread, .inr ⟨timer, set, control⟩,
        .spawn fresh [.complete timer.callback timer.value .done] control heap threads⟩
    | engage empty heap threads => exact ⟨.engage _, trivial, .engage empty heap threads⟩
    | outside fibers executors suspensions mailboxes timers kept threads =>
      exact ⟨.outside next.heap, ⟨mailboxes, timers, kept⟩,
        happens_outside fibers executors suspensions threads⟩
  · rintro ⟨happening, typed, happens⟩
    cases happens with
    | act heap threads => exact .act heap threads.replaces
    | take idle calm waiting left heap threads =>
      exact .take idle calm waiting left heap threads.replaces
    | drop left heap threads => exact .drop left heap threads
    | begin idle codes heap threads => exact .begin idle codes typed heap threads.replaces
    | spawn fresh _ _ heap threads =>
      rcases typed with ⟨codes, control, codes_typed⟩ | ⟨timer, set, control⟩
      · exact .spawn fresh codes codes_typed control heap threads
      · exact .ring set fresh control heap threads
    | engage empty heap threads => exact .engage empty heap threads
    | outside heap becomes threads =>
      obtain ⟨mailboxes, timers, kept⟩ := typed
      refine .outside ?_ ?_ ?_ ?_ ?_ ?_ threads
      all_goals rw [becomes]
      · exact mailboxes
      · exact timers
      · exact kept

end World

end Fibers
