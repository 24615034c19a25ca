import Fibers.Proofs.Machine.Guard
import Fibers.Proofs.Machine.Refusal
import Fibers.Proofs.World.Innermost

/-!
# One thread among others

What a step of one thread needs to know about the other threads is that no fiber of its own is
theirs.

## Main results

`World.Replaces.sound` says so of the innermost activation of a thread. `World.nested_of_reachable`:
on every thread of every machine, loops run in drains and nothing unguarded runs on top of anything
else. `World.Run.stays_or_steps`: what a thread has under way changes only in a step of its own.
-/

namespace Fibers

variable {σ : Type}

namespace World

/-- A thread takes one step of a run. -/
structure Stepped (run : Nat → World σ) (n : Nat) (thread thread' : Thread σ) : Prop where
  heap : (run (n + 1)).heap = (Machine.step (run n).heap thread).1
  stepped : thread' = (Machine.step (run n).heap thread).2
  threads : Replaces (run n) (run (n + 1)) thread thread'

theorem Replaces.exists_places {world world' : World σ} {thread thread' : Thread σ}
    (replaces : Replaces world world' thread thread') (id : FiberId) :
    ∃ rest, world.places id = Machine.held world.heap thread id + rest ∧
      world'.places id = Machine.held world'.heap thread' id + rest := by
  obtain ⟨before, after, was, is⟩ := replaces
  exact ⟨_, congrFun (congrArg Scene.places (scene_of_threads was)) id,
    congrFun (congrArg Scene.places (scene_of_threads is)) id⟩

/-- What an innermost activation needs in order to be taken off its thread. -/
theorem Replaces.sound {world world' : World σ} {thread thread' : Thread σ}
    (replaces : Replaces world world' thread thread') (owned : world.scene.Owned)
    {activation : Activation σ} {rest : List (Activation σ)}
    (control : thread.control = activation :: rest) :
    Machine.Sound world.heap { thread with control := rest } activation := by
  have le : ∀ id,
      activation.places id + Machine.held world.heap { thread with control := rest } id ≤
        world.places id := fun id => by
    obtain ⟨others, was, _⟩ := replaces.exists_places id
    rw [was, Machine.held, Machine.held, Thread.places_of_control control, add_left_comm]
    exact Multiset.le_add_right _ _
  refine ⟨fun id => (Multiset.card_le_card (le id)).trans (owned.single id), ?_, ?_⟩
  · intro id unknown
    exact Multiset.le_zero.mp (owned.known id unknown ▸ le id)
  · intro id exit ended
    obtain ⟨fiber, present, done⟩ := Heap.poll_eq_some_iff.mp ended
    exact Multiset.le_zero.mp (owned.ended id fiber exit present done ▸ le id)

theorem Replaces.steady {world world' : World σ} {thread thread' : Thread σ}
    (replaces : Replaces world world' thread thread') (owned : world.scene.Owned) :
    Machine.Steady world.heap thread := by
  intro id focus stack next
  obtain ⟨calm, rest, control⟩ := Thread.next?_eq_some_iff.mp next
  obtain ⟨fiber, alone⟩ := (replaces.sound owned control).alone calm
  exact ⟨fiber, alone.state, alone.running⟩

/-! ### Threads that begin anew -/

/-- A thread begins anew: with nothing under way it is given a task, or it is given user code. -/
inductive Commences : Thread σ → Prop where
  | task {thread : Thread σ} (idle : thread.control = []) (calm : thread.panicking = none)
      (task : Task σ) : Commences (thread.run task)
  | programs {thread : Thread σ} (codes : List (Code σ Unit))
      (control : thread.control = codes.map .program) : Commences thread

namespace Commences

variable {thread : Thread σ}

/-- There is nothing on the thread but user code, or a batch in its drain. -/
theorem cases_of_mem (commences : Commences thread) {activation : Activation σ}
    (mem : activation ∈ thread.control) :
    (∃ code, activation = .program code) ∨
      (∃ id current stack, activation = .loop id (.node current) stack) ∨
      ∃ outer, activation = .draining outer := by
  cases commences with
  | @task before idle calm task =>
    unfold Thread.run at mem
    split at mem
    next =>
      rw [idle] at mem
      cases mem
    next =>
      rw [idle] at mem
      rcases List.mem_cons.mp mem with rfl | mem
      · exact .inr (.inl ⟨_, _, _, rfl⟩)
      · obtain rfl := List.mem_singleton.mp mem
        exact .inr (.inr ⟨_, rfl⟩)
  | programs codes control =>
    rw [control] at mem
    obtain ⟨code, _, rfl⟩ := List.mem_map.mp mem
    exact .inl ⟨code, rfl⟩

theorem calm_or_programs (commences : Commences thread) :
    thread.panicking = none ∨
      ∃ codes : List (Code σ Unit), thread.control = codes.map .program := by
  cases commences with
  | @task before idle calm task =>
    obtain ⟨_, _, _, calm'⟩ := (before.grows_run task).of_willing
    exact .inl (calm'.trans calm)
  | programs codes control => exact .inr ⟨codes, control⟩

theorem not_escaping (commences : Commences thread) : ¬thread.Escaping := by
  rcases commences.calm_or_programs with calm | ⟨codes, control⟩
  · exact Thread.not_escaping_of_calm calm
  · exact Thread.not_escaping_of_programs control

theorem tame (commences : Commences thread) : thread.Tame := by
  rcases commences.calm_or_programs with calm | ⟨codes, control⟩
  · exact Thread.tame_of_calm calm
  · rintro - activation rest top
    have mem : activation ∈ codes.map Activation.program := by
      rw [← control, top]
      exact List.mem_cons_self
    obtain ⟨code, _, rfl⟩ := List.mem_map.mp mem
    exact ⟨code, .inl rfl⟩

theorem nested (commences : Commences thread) : Nested thread.control := by
  cases commences with
  | @task before idle calm task =>
    obtain ⟨begun, fresh, control, _⟩ := (before.grows_run task).of_willing
    rw [control, idle]
    exact (Nested.programs []).begun fresh
  | programs codes control => exact control ▸ .programs codes

end Commences

/-- A thread was in its place before a step of its machine, or has begun anew, or the step is its
own. -/
theorem Step.get_cases {world world' : World σ} (step : world.Step world') {i : Nat}
    {thread' : Thread σ} (known : world'.threads[i]? = some thread') :
    world.threads[i]? = some thread' ∨ Commences thread' ∨
      ∃ thread, world.threads[i]? = some thread ∧
        world'.heap = (Machine.step world.heap thread).1 ∧
        thread' = (Machine.step world.heap thread).2 ∧
        world'.threads = world.threads.set i (Machine.step world.heap thread).2 := by
  cases step with
  | act heap threads =>
    obtain ⟨j, was, set⟩ := threads.get
    rcases get_of_set (set ▸ known) with ⟨rfl, rfl⟩ | there
    · exact .inr (.inr ⟨_, was, heap, rfl, set⟩)
    · exact .inl there
  | take idle calm waiting left heap threads =>
    obtain ⟨j, _, set⟩ := threads.get
    rcases get_of_set (set ▸ known) with ⟨_, rfl⟩ | there
    · exact .inr (.inl (.task idle calm _))
    · exact .inl there
  | begin idle codes heap threads =>
    obtain ⟨j, _, set⟩ := threads.get
    rcases get_of_set (set ▸ known) with ⟨_, rfl⟩ | there
    · exact .inr (.inl (.programs codes rfl))
    · exact .inl there
  | spawn fresh codes control heap threads =>
    rcases get_of_added (threads ▸ known) with rfl | there
    · exact .inr (.inl (.programs codes control))
    · exact .inl there
  | drop left heap threads | engage empty heap threads
  | outside fibers executors suspensions threads => exact .inl (threads ▸ known)

theorem nested_of_reachable {world : World σ} (reached : world.Reachable) :
    ∀ thread ∈ world.threads, Nested thread.control := by
  obtain ⟨origin, fresh, steps⟩ := reached
  have owned := owned_of_fresh fresh
  -- All threads at once, since a step may end on any of them.
  induction steps with
  | refl =>
    intro thread known
    rw [(fresh.threads thread known).2]
    exact .programs []
  | @tail world world' steps step ih =>
    intro thread known
    obtain ⟨i, known⟩ := List.getElem?_of_mem known
    rcases step.get_cases known with old | commences | ⟨before, was, _, rfl, set⟩
    · exact ih thread (List.mem_of_getElem? old)
    · exact commences.nested
    · have steady := (replaces_of_set was set).steady (owned_of_steps owned steps)
      exact Machine.nested_step steady (ih before (List.mem_of_getElem? was))

/-! ### Threads in their places -/

variable {run : Nat → World σ} {n i : Nat} {thread : Thread σ}

/-- The thread in some place takes a step. -/
structure StepsAt (run : Nat → World σ) (n i : Nat) (thread : Thread σ) : Prop where
  before : (run n).threads[i]? = some thread
  heap : (run (n + 1)).heap = (Machine.step (run n).heap thread).1
  threads : (run (n + 1)).threads = (run n).threads.set i (Machine.step (run n).heap thread).2

namespace StepsAt

theorem after (steps : StepsAt run n i thread) :
    (run (n + 1)).threads[i]? = some (Machine.step (run n).heap thread).2 := by
  obtain ⟨small, _⟩ := List.getElem?_eq_some_iff.mp steps.before
  rw [steps.threads, List.getElem?_set_self small]

theorem elsewhere (steps : StepsAt run n i thread) {j : Nat} (other : i ≠ j) :
    (run (n + 1)).threads[j]? = (run n).threads[j]? := by
  rw [steps.threads, List.getElem?_set_ne other]

theorem replaces (steps : StepsAt run n i thread) :
    Replaces (run n) (run (n + 1)) thread (Machine.step (run n).heap thread).2 :=
  replaces_of_set steps.before steps.threads

theorem stepped (steps : StepsAt run n i thread) :
    Stepped run n thread (Machine.step (run n).heap thread).2 :=
  ⟨steps.heap, rfl, steps.replaces⟩

theorem steady (steps : StepsAt run n i thread) (h : Run run) :
    Machine.Steady (run n).heap thread :=
  steps.replaces.steady (h.owned n)

end StepsAt

/-- A thread of a run was in its place a moment before, or has begun anew, or has taken a step. -/
theorem Run.get_cases (h : Run run) (known : (run (n + 1)).threads[i]? = some thread) :
    (run n).threads[i]? = some thread ∨ Commences thread ∨
      ∃ before, StepsAt run n i before ∧ thread = (Machine.step (run n).heap before).2 := by
  rcases (h.step n).get_cases known with old | commences | ⟨before, was, heap, stepped, set⟩
  · exact .inl old
  · exact .inr (.inl commences)
  · exact .inr (.inr ⟨before, ⟨was, heap, set⟩, stepped⟩)

/-- What may become of the threads if none of them takes a step. -/
inductive Rests (threads threads' : List (Thread σ)) : Prop where
  | same (same : threads' = threads)
  | begun {i : Nat} {thread thread' : Thread σ} (known : threads[i]? = some thread)
      (idle : thread.control = [])
      (fresh : ∀ exit observers, .notifying exit observers ∉ thread'.control)
      (set : threads' = threads.set i thread')
  | spawned {thread : Thread σ}
      (fresh : ∀ exit observers, .notifying exit observers ∉ thread.control)
      (added : threads' = threads ++ [thread])

theorem not_mem_programs (codes : List (Code σ Unit)) (exit : Exit Erased)
    (observers : List (Observer σ)) : .notifying exit observers ∉ codes.map Activation.program := by
  simp

/-- The only steps in which a fiber ends, an observer comes or a callback is completed are those of
a thread. -/
theorem Run.steps_or_rests (h : Run run) (n : Nat) :
    (∃ i thread, StepsAt run n i thread) ∨
      (run (n + 1)).heap.fibers = (run n).heap.fibers ∧
        (run (n + 1)).heap.suspensions = (run n).heap.suspensions ∧
        Rests (run n).threads (run (n + 1)).threads := by
  cases h.step n with
  | act heap threads =>
    obtain ⟨i, known, set⟩ := threads.get
    exact .inl ⟨i, _, known, heap, set⟩
  | @take thread _ _ _ task _ idle calm waiting left heap threads =>
    obtain ⟨i, known, set⟩ := threads.get
    refine .inr ⟨heap ▸ rfl, heap ▸ rfl, .begun known idle (fun exit observers => ?_) set⟩
    obtain ⟨begun, fresh, control, _⟩ := (thread.grows_run task).of_willing
    rw [control, idle, List.append_nil]
    cases fresh <;> simp
  | begin idle codes heap threads =>
    obtain ⟨i, known, set⟩ := threads.get
    exact .inr ⟨heap ▸ rfl, heap ▸ rfl, .begun known idle (not_mem_programs codes) set⟩
  | spawn fresh codes control heap threads =>
    exact .inr ⟨heap ▸ rfl, heap ▸ rfl, .spawned (control ▸ not_mem_programs codes) threads⟩
  | drop left heap threads | engage empty heap threads =>
    exact .inr ⟨heap ▸ rfl, heap ▸ rfl, .same threads⟩
  | outside fibers executors suspensions threads => exact .inr ⟨fibers, suspensions, .same threads⟩

theorem Rests.stays {threads threads' : List (Thread σ)} (rests : Rests threads threads')
    (known : threads[i]? = some thread) (busy : thread.control ≠ []) :
    threads'[i]? = some thread := by
  cases rests with
  | same same => exact same ▸ known
  | @begun j _ _ known' idle fresh set =>
    by_cases own : j = i
    · subst own
      cases known.symm.trans known'
      exact absurd idle busy
    · rw [set, List.getElem?_set_ne own, known]
  | spawned fresh added =>
    obtain ⟨small, _⟩ := List.getElem?_eq_some_iff.mp known
    rw [added, List.getElem?_append_left small, known]

/-- What a thread has under way stays as it is until the thread takes a step. -/
theorem Run.stays_or_steps (h : Run run) (known : (run n).threads[i]? = some thread)
    (busy : thread.control ≠ []) :
    (run (n + 1)).threads[i]? = some thread ∨ StepsAt run n i thread := by
  rcases h.steps_or_rests n with ⟨j, other, steps⟩ | ⟨_, _, rests⟩
  · -- The machine may have taken the step on another thread.
    by_cases own : j = i
    · subst own
      cases known.symm.trans steps.before
      exact .inr steps
    · exact .inl ((steps.elsewhere own).trans known)
  · exact .inl (rests.stays known busy)

/-- A thread that notifies observers was the same before, or has taken a step. -/
theorem Run.stayed_or_stepped (h : Run run) (known : (run (n + 1)).threads[i]? = some thread)
    {exit : Exit Erased} {observers : List (Observer σ)}
    (notifying : .notifying exit observers ∈ thread.control) :
    (run n).threads[i]? = some thread ∨
      ∃ before, StepsAt run n i before ∧ thread = (Machine.step (run n).heap before).2 := by
  rcases h.get_cases known with old | commences | stepped
  · exact .inl old
  · rcases commences.cases_of_mem notifying with ⟨_, ⟨⟩⟩ | ⟨_, _, _, ⟨⟩⟩ | ⟨_, ⟨⟩⟩
  · exact .inr stepped

/-! ### Trials -/

theorem stepsAt_trial (state : σ) (program : Code σ Unit) (n : Nat) :
    StepsAt (trial state program) n 0 (trial state program n).main := ⟨rfl, rfl, rfl⟩

theorem eq_zero_of_stepsAt_trial {state : σ} {program : Code σ Unit} {i : Nat}
    (steps : StepsAt (trial state program) n i thread) : i = 0 := by
  have there := steps.before
  rw [threads, others_trial] at there
  obtain ⟨small, _⟩ := List.getElem?_eq_some_iff.mp there
  exact Nat.lt_one_iff.mp small

end World

end Fibers
