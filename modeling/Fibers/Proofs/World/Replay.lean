import Fibers.Proofs.Machine.Veil
import Fibers.Proofs.World.Reach

/-!
# Replays

A run is determined by its first world and by the choices made on the way. A replay makes the same
choices, while the interruption of one fiber is requested at other moments, or not at all.

## Main results

`World.exists_choices`: every run is made of choices. `World.alike_replay`: until the fiber is
interrupted in one of them, a run and its replay are alike. `World.isRequested_choose` and
`World.isFinalizing_choose` say which choices ask for its interruption and which carry it out.
-/

namespace Fibers

variable {σ : Type}

/-- What a scheduler, or whoever uses a machine, chooses to happen next. -/
inductive Choice (σ : Type) where
  /-- A thread takes a step. -/
  | act (index : Nat)
  /-- A thread runs a waiting task, and these are left. -/
  | take (index : Nat) (executor : ExecutorId) (position : Nat) (left : Queue (Task σ))
  /-- Waiting tasks are dropped, and these are left. -/
  | drop (executor : ExecutorId) (left : Queue (Task σ))
  /-- User code begins on a thread. -/
  | begin (index : Nat) (codes : List (Code σ Unit))
  /-- A thread is made. -/
  | spawn (thread : Thread σ)
  /-- An executor is made. -/
  | engage (executor : Executor σ)
  /-- What no fiber stands in becomes as in the given heap. -/
  | outside (heap : Heap σ)

namespace World

/-- Change one thread together with the heap. -/
def onThread (world : World σ) (index : Nat) (f : Heap σ → Thread σ → Heap σ × Thread σ) :
    World σ :=
  match index with
  | 0 =>
    let (heap, main) := f world.heap world.main
    ⟨heap, main, world.others⟩
  | index + 1 =>
    match world.others[index]? with
    | some thread =>
      let (heap, thread) := f world.heap thread
      ⟨heap, world.main, world.others.setIfInBounds index thread⟩
    | none => world

/-- Let happen what was chosen. -/
def choose (world : World σ) : Choice σ → World σ
  | .act index => world.onThread index Machine.step
  | .take index executor position left =>
    world.onThread index fun heap thread =>
      match (heap.waiting executor).toList[position]? with
      | some task => (heap.setWaiting executor left, thread.run task)
      | none => (heap, thread)
  | .drop executor left => { world with heap := world.heap.setWaiting executor left }
  | .begin index codes =>
    world.onThread index fun heap thread =>
      (heap, { thread with control := codes.map .program, panicking := none })
  | .spawn thread => { world with others := world.others.push thread }
  | .engage executor =>
    { world with
      heap := { world.heap with executors := world.heap.executors.push executor } }
  | .outside heap =>
    { world with
      heap :=
        { heap with
          fibers := world.heap.fibers
          executors := world.heap.executors
          suspensions := world.heap.suspensions } }

/-! ### Every step is chosen -/

theorem ext_threads {world world' : World σ} (heap : world.heap = world'.heap)
    (threads : world.threads = world'.threads) : world = world' := by
  obtain ⟨heap, main, others⟩ := world
  obtain ⟨heap', main', others'⟩ := world'
  obtain ⟨rfl, same⟩ := List.cons.inj threads
  cases heap
  cases Array.toList_inj.mp same
  rfl

theorem threads_onThread {world : World σ} {index : Nat} {thread : Thread σ}
    (present : world.threads[index]? = some thread)
    (f : Heap σ → Thread σ → Heap σ × Thread σ) :
    (world.onThread index f).heap = (f world.heap thread).1 ∧
      (world.onThread index f).threads = world.threads.set index (f world.heap thread).2 := by
  obtain ⟨heap, main, others⟩ := world
  cases index with
  | zero =>
    cases present
    exact ⟨rfl, rfl⟩
  | succ index =>
    have present : others[index]? = some thread := by
      rw [← Array.getElem?_toList]
      exact present
    simp [onThread, present, threads]

/-- A change of the heap and of one thread is made by a function of both. -/
theorem eq_onThread {world world' : World σ} {thread thread' : Thread σ} {index : Nat}
    {f : Heap σ → Thread σ → Heap σ × Thread σ}
    (present : world.threads[index]? = some thread)
    (threads : world'.threads = world.threads.set index thread')
    (made : f world.heap thread = (world'.heap, thread')) : world' = world.onThread index f := by
  obtain ⟨heap', threads'⟩ := threads_onThread present f
  rw [made] at heap' threads'
  exact ext_threads heap'.symm (threads.trans threads'.symm)

theorem exists_choice {world world' : World σ} (step : world.Step world') :
    ∃ choice, world' = world.choose choice := by
  cases step with
  | act heap threads =>
    obtain ⟨index, present, threads⟩ := threads.get
    refine ⟨.act index, ?_⟩
    rw [choose]
    exact eq_onThread present threads (by rw [heap])
  | @take thread executor before after task rest idle calm waiting left heap threads =>
    obtain ⟨index, present, threads⟩ := threads.get
    refine ⟨.take index executor before.length rest, ?_⟩
    rw [choose]
    exact eq_onThread present threads (by simp [waiting, heap])
  | @drop executor rest left heap threads =>
    exact ⟨.drop executor rest, ext_threads heap threads⟩
  | begin idle codes heap threads =>
    obtain ⟨index, present, threads⟩ := threads.get
    refine ⟨.begin index codes, ?_⟩
    rw [choose]
    exact eq_onThread present threads (by rw [heap])
  | @spawn thread fresh codes control heap threads =>
    refine ⟨.spawn thread, ext_threads heap (threads.trans ?_)⟩
    simp [World.threads, choose]
  | @engage executor empty heap threads => exact ⟨.engage executor, ext_threads heap threads⟩
  | outside fibers executors suspensions threads =>
    refine ⟨.outside world'.heap, ext_threads ?_ threads⟩
    simp only [choose, ← fibers, ← executors, ← suspensions]

/-- Every run is made of choices. -/
theorem exists_choices {run : Nat → World σ} (h : Run run) :
    ∃ choices : Nat → Choice σ, ∀ n, run (n + 1) = (run n).choose (choices n) :=
  ⟨fun n => (exists_choice (h.step n)).choose, fun n => (exists_choice (h.step n)).choose_spec⟩

/-! ### Worlds in which one fiber has been asked or not -/

/-- A world of which something is hidden. -/
def behind (veil : Veil) (world : World σ) : World σ :=
  { world with heap := world.heap.behind veil }

/-- Two worlds do not differ but in whether, and how often, a fiber has been asked for
interruption. -/
def Alike (id : FiberId) (world other : World σ) : Prop :=
  world.behind (.requests id) = other.behind (.requests id)

/-- Have a fiber be asked for interruption, or not. -/
def ask (world : World σ) (id : FiberId) (asked : Bool) : World σ :=
  { world with
    heap := world.heap.updateFlags id fun flags => { flags with requested := asked } }

/-- A choice lets the interruption of a fiber take effect. -/
def Interrupts (world : World σ) (choice : Choice σ) (id : FiberId) : Prop :=
  ∃ index thread, choice = .act index ∧ world.threads[index]? = some thread ∧
    thread.Interrupts world.heap id

/-- Make the choices of a run once more, but let requests for the interruption of one fiber come as
they are given, and no others. -/
def replay (id : FiberId) (choices : Nat → Choice σ) (asked : Nat → Bool) (origin : World σ) :
    Nat → World σ
  | 0 => origin.ask id (asked 0)
  | n + 1 => ((replay id choices asked origin n).choose (choices n)).ask id (asked (n + 1))

theorem alike_of_heap {id : FiberId} {heap heap' : Heap σ}
    (same : heap.behind (.requests id) = heap'.behind (.requests id)) (main : Thread σ)
    (others : Array (Thread σ)) : Alike id ⟨heap, main, others⟩ ⟨heap', main, others⟩ :=
  congrArg (World.mk · main others) same

theorem alike_ask (world : World σ) (id : FiberId) (asked : Bool) :
    Alike id world (world.ask id asked) := by
  have same : (world.heap.updateFlags id fun flags => { flags with requested := asked }).behind
      (.requests id) = world.heap.behind (.requests id) :=
    Heap.updateFlags_hidden _ rfl fun _ => rfl
  exact alike_of_heap same.symm _ _

/-- The thread at a place sees what the heap shows it, so it changes the same way. -/
theorem onThread_unasked {world : World σ} {id : FiberId} {index : Nat}
    {f : Heap σ → Thread σ → Heap σ × Thread σ}
    (same : ∀ thread, world.threads[index]? = some thread →
      (f (world.heap.behind (.requests id)) thread).2 = (f world.heap thread).2 ∧
        (f (world.heap.behind (.requests id)) thread).1.behind (.requests id) =
          (f world.heap thread).1.behind (.requests id)) :
    Alike id (world.onThread index f) ((world.behind (.requests id)).onThread index f) := by
  obtain ⟨heap, main, others⟩ := world
  unfold Alike behind
  cases index with
  | zero =>
    obtain ⟨thread, rest⟩ := same main rfl
    simp [onThread, thread, rest]
  | succ index =>
    cases present : others[index]? with
    | none => simp [onThread, present, Heap.behind_requests_twice]
    | some thread =>
      -- The caller's thread comes first in the list of all threads.
      have known : (World.mk heap main others).threads[index + 1]? = some thread := by
        rw [← Array.getElem?_toList] at present
        exact present
      obtain ⟨thread, rest⟩ := same _ known
      simp [onThread, present, thread, rest]

/-- A choice that does not interrupt a fiber leads to the same if nobody has asked for that. -/
theorem choose_unasked {world : World σ} {choice : Choice σ} {id : FiberId}
    (other : ¬world.Interrupts choice id) :
    Alike id (world.choose choice) ((world.behind (.requests id)).choose choice) := by
  have twice : ∀ heap : Heap σ, (heap.behind (.requests id)).behind (.requests id) =
      heap.behind (.requests id) := Heap.behind_requests_twice
  cases choice with
  | act index =>
    refine onThread_unasked fun thread present => Machine.step_unasked fun interrupts => ?_
    exact other ⟨index, thread, rfl, present, interrupts⟩
  | take index executor position left =>
    refine onThread_unasked fun thread _ => ?_
    simp only [Heap.waiting_behind]
    split
    · exact ⟨rfl, by rw [Heap.setWaiting_behind, twice]⟩
    · exact ⟨rfl, twice _⟩
  | drop executor left =>
    refine alike_of_heap ?_ _ _
    rw [behind, Heap.setWaiting_behind, twice]
  | begin index codes => exact onThread_unasked fun thread _ => ⟨rfl, twice _⟩
  | spawn thread => exact alike_of_heap (twice _).symm _ _
  | engage executor =>
    exact alike_of_heap (twice { world.heap with
      executors := world.heap.executors.push executor }).symm _ _
  | outside heap =>
    refine alike_of_heap ?_ _ _
    -- Of what a veil covers, only the fibers are kept.
    have fibers := congrArg Heap.fibers (twice world.heap)
    simp only [Heap.behind, behind] at fibers ⊢
    rw [fibers]

/-- Alike worlds stay alike, whatever happens in both, until the fiber is interrupted in one. -/
theorem Alike.choose {world other : World σ} {choice : Choice σ} {id : FiberId}
    (alike : Alike id world other) (calm : ¬world.Interrupts choice id)
    (calm' : ¬other.Interrupts choice id) :
    Alike id (world.choose choice) (other.choose choice) :=
  (choose_unasked calm).trans
    ((congrArg (fun world => (world.choose choice).behind (.requests id)) alike).trans
      (choose_unasked calm').symm)

/-- Until the fiber is interrupted in one of them, a run and its replay are alike. -/
theorem alike_replay {run : Nat → World σ} {choices : Nat → Choice σ}
    (made : ∀ n, run (n + 1) = (run n).choose (choices n)) {id : FiberId} {asked : Nat → Bool}
    {n : Nat} (calm : ∀ m < n, ¬(run m).Interrupts (choices m) id ∧
      ¬(replay id choices asked (run 0) m).Interrupts (choices m) id) :
    Alike id (run n) (replay id choices asked (run 0) n) := by
  induction n with
  | zero => exact alike_ask _ _ _
  | succ n ih =>
    have alike := ih fun m lt => calm m (Nat.lt_succ_of_lt lt)
    obtain ⟨here, there⟩ := calm n (Nat.lt_succ_self n)
    rw [made, replay]
    exact (alike.choose here there).trans (alike_ask _ _ _)

/-! ### Who raises the flags of a fiber -/

/-- A choice lets some thread ask for the interruption of a fiber. -/
def Asks (world : World σ) (choice : Choice σ) (id : FiberId) : Prop :=
  ∃ index thread, choice = .act index ∧ world.threads[index]? = some thread ∧ thread.Asks id

/-- What one thread does to the flags of a fiber is all that is done to them. -/
theorem onThread_heap {world : World σ} {index : Nat} {f : Heap σ → Thread σ → Heap σ × Thread σ}
    {p : Heap σ → Prop} (unchanged : p world.heap)
    (changed : ∀ thread, world.threads[index]? = some thread → p (f world.heap thread).1) :
    p (world.onThread index f).heap := by
  cases present : world.threads[index]? with
  | some thread =>
    rw [(threads_onThread present f).1]
    exact changed thread present
  | none =>
    cases index with
    | zero => cases present
    | succ index =>
      have missing : world.others[index]? = none := by
        rw [← Array.getElem?_toList]
        exact present
      simpa [onThread, missing] using unchanged

/-- A choice other than a step of a thread leaves the flags of all fibers alone. -/
theorem fiber?_choose {world : World σ} {choice : Choice σ} {p : Option (FiberState σ) → Prop}
    {id : FiberId} (unchanged : p (world.heap.fiber? id))
    (changed : ∀ index thread, choice = .act index → world.threads[index]? = some thread →
      p ((Machine.step world.heap thread).1.fiber? id)) :
    p ((world.choose choice).heap.fiber? id) := by
  cases choice with
  | act index =>
    exact onThread_heap (p := fun heap => p (heap.fiber? id)) unchanged fun thread present =>
      changed index thread rfl present
  | take index executor position left =>
    refine onThread_heap (p := fun heap => p (heap.fiber? id)) unchanged fun thread _ => ?_
    split <;> exact unchanged
  | begin =>
    exact onThread_heap (p := fun heap => p (heap.fiber? id)) unchanged fun _ _ => unchanged
  | drop | spawn | engage | outside => exact unchanged

/-- An interruption that is due takes effect where its fiber is interrupted. -/
theorem isFinalizing_beginInterruption {heap : Heap σ} {fiber id : FiberId}
    (own : fiber.index = id.index) (due : heap.shouldInterrupt fiber = true) (thread : Thread σ)
    (stack : List (Frame σ)) (current : Node σ) :
    heap.isFinalizing id = false ∧
      (Machine.beginInterruption heap thread fiber stack current).1.isFinalizing id = true := by
  have same := heap.fiber?_congr own
  rw [Machine.beginInterruption, Heap.isFinalizing, Heap.isFinalizing, Heap.fiber?, Heap.fiber?,
    (Heap.tables_report _ _ _ _).1, Heap.updateFlags, Heap.fibers_updateFiber, if_pos own]
  rw [Heap.shouldInterrupt, same, Heap.fiber?] at due
  cases state : heap.fibers[id.index]? with
  | none => simp [state] at due
  | some fiber =>
    rw [state] at due
    obtain ⟨_, _, fresh⟩ := InterruptFlags.shouldInterrupt_iff.mp due
    simp [fresh, InterruptFlags.beginFinalizing]

/-- An interruption that is due takes effect in the step that polls for it. -/
theorem Interrupts.isFinalizing {world : World σ} {choice : Choice σ} {id : FiberId}
    (interrupts : world.Interrupts choice id) :
    world.heap.isFinalizing id = false ∧ (world.choose choice).heap.isFinalizing id = true := by
  obtain ⟨index, thread, rfl, present, fiber, current, stack, next, own, due⟩ := interrupts
  obtain ⟨calm, rest, control⟩ := Thread.next?_eq_some_iff.mp next
  rw [choose, (threads_onThread present _).1, Machine.step_of_due calm control due]
  exact isFinalizing_beginInterruption own due _ stack current

theorem isRequested_choose {world : World σ} {choice : Choice σ} {id : FiberId}
    (idle : world.heap.isRequested id = false) (other : ¬world.Asks choice id) :
    (world.choose choice).heap.isRequested id = false :=
  fiber?_choose (p := fun fiber => fiber.any (·.flags.requested) = false) idle
    fun index thread chosen present => Machine.isRequested_step idle fun asks =>
      other ⟨index, thread, chosen, present, asks⟩

theorem isFinalizing_choose {world : World σ} {choice : Choice σ} {id : FiberId}
    (idle : world.heap.isFinalizing id = false) (other : ¬world.Interrupts choice id) :
    (world.choose choice).heap.isFinalizing id = false :=
  fiber?_choose (p := fun fiber => fiber.any (·.flags.finalizing) = false) idle
    fun index thread chosen present => Machine.isFinalizing_step idle fun interrupts =>
      other ⟨index, thread, chosen, present, interrupts⟩

end World

end Fibers
