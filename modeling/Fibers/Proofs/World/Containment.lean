import Fibers.Proofs.World.Finalizer
import Fibers.Proofs.World.Interruption
import Fibers.Proofs.World.Nesting

/-!
# Where panics go

User code may panic anywhere, and so may an executor that is handed a task. The interpreter runs
both.

## Main results

`World.panics_contained`: a panic of user code becomes a defect of the fiber that the code belongs
to, and nothing else is touched. Exactly if an executor refuses what the interpreter hands to it,
the panic gets past the guards; then the fiber of the task is lost, with all that was queued behind
the loop. `World.handler_bypassed` is a run in which this happens.

## Proof strategy

On one thread, `Machine.escaping_step` says when a panic gets past the guards. A fiber that is left
without a place stays so (`World.Run.lost`), since only its place could bring it back.
-/

namespace Fibers

variable {σ : Type}

namespace World

variable {run : Nat → World σ} {id : FiberId} {n : Nat}

/-! ### Lost fibers -/

/-- A fiber that has not ended is nowhere, from some moment on. -/
def Lost (run : Nat → World σ) (id : FiberId) (n : Nat) : Prop :=
  ∀ m, n ≤ m → (run m).places id = 0 ∧ (run m).heap.poll id = none

theorem Run.lost (h : Run run) (knows : (run n).heap.Knows id) (nowhere : (run n).places id = 0)
    (running : (run n).heap.poll id = none) : Lost run id n := by
  have steady : ∀ m, n ≤ m → (run m).heap.Knows id ∧ (run m).places id = 0 ∧
      (run m).heap.poll id = none := by
    intro m later
    induction m, later using Nat.le_induction with
    | base => exact ⟨knows, nowhere, running⟩
    | succ m _ ih =>
      obtain ⟨knows, nowhere, running⟩ := ih
      obtain ⟨fiber, present⟩ := knows.exists_fiber
      obtain ⟨gone, fiber', present', kept⟩ := (h.moves m).of_nowhere knows nowhere present
      have still : fiber.exit? = none := (Heap.poll_of_fiber? present).symm.trans running
      have running' := (Heap.poll_of_fiber? present').trans (kept.exit.trans still)
      exact ⟨(h.moves m).knows knows, gone, running'⟩
  intro m later
  exact (steady m later).2

theorem Stepped.lost {thread thread' : Thread σ} (stepped : Stepped run n thread thread')
    (h : Run run)
    (there : (run n).heap.Knows id → Machine.held (run n).heap thread id ≠ 0)
    (stranded : Machine.Stranded (Machine.step (run n).heap thread).1 thread' id) :
    Lost run id (n + 1) := by
  obtain ⟨others, was, is⟩ := stepped.threads.exists_places id
  have owned := h.owned n
  -- The fiber was on this thread or is new, so no other thread has it.
  have elsewhere : others = 0 := by
    by_cases knows : (run n).heap.Knows id
    · have single : ((run n).places id).card ≤ 1 := owned.single id
      rw [was] at single
      exact eq_zero_of_card_add_le_one single (there knows)
    · exact (add_eq_zero.mp (was.symm.trans (owned.known id knows))).2
  rw [← stepped.heap] at stranded
  refine h.lost stranded.knows ?_ stranded.running
  rw [is, elsewhere, stranded.nowhere, add_zero]

variable {thread thread' : Thread σ} {activation : Activation σ} {rest : List (Activation σ)}
  {payload : Payload}

theorem Stepped.lost_of_refused (stepped : Stepped run n thread thread') (h : Run run)
    (calm : thread.panicking = none) (control : thread.control = activation :: rest)
    (refused : Machine.refused? (run n).heap { thread with control := rest } activation =
      some (id, payload)) :
    thread'.panicking = some payload ∧ Lost run id (n + 1) := by
  have sound := stepped.threads.sound (h.owned n) control
  obtain ⟨own, raised, stranded⟩ := Machine.refuses_of_refused? sound calm refused
  rw [← Machine.step_of_next? _ calm control] at raised stranded
  rw [← stepped.stepped] at raised stranded
  refine ⟨by rw [raised]; rfl, stepped.lost h (fun knows => ?_) stranded⟩
  have there := Machine.there_of_refused? refused knows
  rwa [Machine.held, Thread.places_of_control control, add_left_comm]

theorem Stepped.lost_of_requested (stepped : Stepped run n thread thread') (h : Run run)
    (calm : thread.panicking = none) (control : thread.control = activation :: rest)
    {α : Type} {keep : Code σ α → Activation σ} {code : Code σ α}
    (holds : activation.Holds keep code)
    (refused : Machine.refusedRequest? (run n).heap { thread with control := rest } code =
      some (id, payload)) :
    (∃ left, thread' = { thread with control := keep left :: rest, panicking := some payload }) ∧
      Lost run id (n + 1) := by
  have sound := stepped.threads.sound (h.owned n) control
  have going : code.isOver = false := by
    cases code with
    | done | panic => cases refused
    | _ => rfl
  obtain ⟨left, raised, stranded⟩ := Machine.refuses_of_refusedRequest? sound holds refused
  rw [← Machine.advance_of_holds holds going, ← Machine.step_of_next? _ calm control,
    ← stepped.stepped] at raised stranded
  refine ⟨⟨left, raised⟩, stepped.lost h (fun knows none => ?_) stranded⟩
  rw [Machine.held, Thread.places_of_control control, add_left_comm] at none
  exact Machine.there_of_refusedRequest? refused knows (add_eq_zero.mp none).2

theorem Stepped.lost_of_dropped (stepped : Stepped run n thread thread') (h : Run run)
    (dropped : Machine.step (run n).heap thread = ((run n).heap, thread'))
    {own : Multiset (Place σ)} (there : own ≠ 0)
    (whole : Machine.held (run n).heap thread id = own + Machine.held (run n).heap thread' id) :
    Lost run id (n + 1) := by
  obtain ⟨others, was, _⟩ := stepped.threads.exists_places id
  have owned := h.owned n
  -- Whatever stands somewhere is known and running, and stands nowhere else.
  have somewhere : (run n).places id ≠ 0 := fun none => there <| by
    rw [was, whole] at none
    exact (add_eq_zero.mp (add_eq_zero.mp none).1).1
  obtain ⟨knows, running⟩ := owned.there somewhere
  have single : ((run n).places id).card ≤ 1 := owned.single id
  rw [was, whole, add_assoc] at single
  have left := eq_zero_of_card_add_le_one single there
  refine stepped.lost h (fun _ none => there ?_) ?_
  · rw [whole] at none
    exact (add_eq_zero.mp none).1
  · rw [dropped]
    exact ⟨knows, (add_eq_zero.mp left).1, running⟩

/-- A loop that a panic goes through takes its fiber along. -/
theorem Stepped.lost_of_loop (stepped : Stepped run n thread thread') (h : Run run)
    {focus : Focus σ} {stack : List (Frame σ)} (panicking : thread.panicking = some payload)
    (control : thread.control = .loop id focus stack :: rest)
    (interprets : (Activation.loop id focus stack).interprets = true) : Lost run id (n + 1) := by
  have own : (Activation.loop id focus stack).places id ≠ 0 := by
    rw [Activation.places, if_pos rfl]
    exact Multiset.singleton_ne_zero _
  have dropped : Machine.step (run n).heap thread =
      ((run n).heap, { thread with control := rest }) := by
    rw [Machine.step_of_panicking _ panicking control]
    cases focus with
    | node | value | cause => rfl
    | thunk | raising | building | registering => cases interprets
  have after := stepped.stepped
  rw [dropped] at after
  subst after
  refine stepped.lost_of_dropped h dropped own ?_
  rw [Machine.held, Thread.places_of_control control, add_left_comm]
  rfl

/-- A drain that a panic goes through takes along whatever was queued. -/
theorem Stepped.lost_of_draining (stepped : Stepped run n thread thread') (h : Run run)
    {outer : Option (Queue (Batch σ))} (panicking : thread.panicking = some payload)
    (control : thread.control = .draining outer :: rest) {queue : Queue (Batch σ)}
    (pending : thread.pending = some queue) {batch : Batch σ} (queued : batch ∈ queue.toList) :
    Lost run batch.fiber (n + 1) := by
  have own : queuedPlaces batch.fiber thread.pending ≠ 0 := by
    intro none
    rw [pending] at none
    have empty := List.sum_eq_zero_iff.mp none _ (List.mem_map_of_mem queued)
    rw [Batch.places, if_pos rfl] at empty
    exact Multiset.singleton_ne_zero _ empty
  have dropped : Machine.step (run n).heap thread =
      ((run n).heap, { thread with control := rest, pending := outer }) := by
    rw [Machine.step_of_panicking _ panicking control]
    rfl
  have after := stepped.stepped
  rw [dropped] at after
  subst after
  refine stepped.lost_of_dropped h dropped own ?_
  simp only [Machine.held, Thread.places, control, List.map_cons, List.sum_cons, Activation.places]
  abel

/-! ### Guards -/

/-- What a guard in a loop makes of a panic reaches the innermost handler, like any other cause. -/
theorem raises_of_caught {world : World σ} {focus next : Focus σ} {stack : List (Frame σ)}
    (caught : focus.caught? payload = some next)
    (known : { thread with control := .loop id next stack :: rest, panicking := none } ∈
      world.threads) : world.Raises id (.ofPayload payload) stack := by
  have tops : world.Tops id next stack :=
    ⟨_, known, Thread.next?_eq_some_iff.mpr ⟨rfl, rest, rfl⟩⟩
  cases focus with
  | thunk | raising | registering =>
    cases caught
    exact .raised tops
  | building =>
    cases caught
    exact .polling tops
  | node | value | cause => cases caught

theorem Stepped.caught (stepped : Stepped run n thread thread') (h : Run run)
    {focus next : Focus σ} {stack : List (Frame σ)}
    (control : thread.control = .loop id focus stack :: rest)
    (panics : thread.Panics (.loop id focus stack) payload)
    (caught : focus.caught? payload = some next) :
    thread' = { thread with control := .loop id next stack :: rest, panicking := none } ∧
      (run (n + 1)).places id = {.active next stack} ∧
      (∀ other ≠ id, (run (n + 1)).places other = (run n).places other) ∧
      Delivers run id (n + 1) (.ofPayload payload) stack := by
  have meets : (Activation.loop id focus stack).Meets (run n).heap :=
    (h.owned n).meeting _ ⟨thread, stepped.threads.symm.mem_new, control ▸ List.mem_cons_self⟩
  obtain ⟨left, places⟩ := Machine.step_of_caught control panics caught meets
  rw [← stepped.stepped] at left
  have known := left ▸ stepped.threads.mem_new
  have tops : (run (n + 1)).Tops id next stack :=
    ⟨_, known, Thread.next?_eq_some_iff.mpr ⟨rfl, rest, rfl⟩⟩
  refine ⟨left, tops.places (h.owned (n + 1)), fun other ne => ?_,
    h.delivers (raises_of_caught caught known)⟩
  obtain ⟨others, was, is⟩ := stepped.threads.exists_places other
  have same : thread'.places other = thread.places other := by
    rw [left, Thread.places, Thread.places, control]
    simp only [List.map_cons, List.sum_cons, Activation.places, if_neg (Ne.symm ne)]
  rw [is, was, Machine.held, Machine.held, stepped.heap, places, same]

theorem Stepped.swallowed (stepped : Stepped run n thread thread') {code : Code σ Unit}
    (control : thread.control = .callback code :: rest)
    (panics : thread.Panics (.callback code) payload) :
    (thread' = { thread with control := rest, panicking := none } ∨
        thread.panicking = none ∧ thread' = { thread with panicking := some payload }) ∧
      ∀ id, (run (n + 1)).places id = (run n).places id := by
  obtain ⟨left, places⟩ := Machine.step_of_callback (run n).heap control panics
  rw [← stepped.stepped] at left
  refine ⟨left, fun id => ?_⟩
  obtain ⟨others, was, is⟩ := stepped.threads.exists_places id
  have same : thread'.places id = thread.places id := by
    rcases left with gone | ⟨_, raised⟩
    · rw [gone, Thread.places, Thread.places, control]
      simp only [List.map_cons, List.sum_cons, Activation.places, zero_add]
    · rw [raised, Thread.places, Thread.places]
  rw [is, was, Machine.held, Machine.held, stepped.heap, places, same]

/-! ### Containment -/

/-- What becomes of all panics in a run. -/
structure Containment (run : Nat → World σ) : Prop where
  /-- A panic that reaches user code in a loop becomes a defect of the fiber of the loop, above all
  of its frames, and gets to the innermost handler. All other fibers stay where they are, those
  queued behind the loop among them. -/
  caught : ∀ n thread thread' id focus stack rest payload next, Stepped run n thread thread' →
    thread.control = .loop id focus stack :: rest → thread.Panics (.loop id focus stack) payload →
    focus.caught? payload = some next →
    thread' = { thread with control := .loop id next stack :: rest, panicking := none } ∧
      (run (n + 1)).places id = {.active next stack} ∧
      (∀ other ≠ id, (run (n + 1)).places other = (run n).places other) ∧
      Delivers run id (n + 1) (.ofPayload payload) stack
  /-- A panic that reaches the callback of a caller is swallowed; no fiber moves. -/
  swallowed : ∀ n thread thread' code rest payload, Stepped run n thread thread' →
    thread.control = .callback code :: rest → thread.Panics (.callback code) payload →
    (thread' = { thread with control := rest, panicking := none } ∨
        thread.panicking = none ∧ thread' = { thread with panicking := some payload }) ∧
      ∀ id, (run (n + 1)).places id = (run n).places id
  /-- A step raises a panic that gets past the guards exactly if an executor refuses what the
  interpreter hands to it: a fiber that shifts, one that is forked, or one that a completion
  resumes. -/
  escapes : ∀ n thread thread' activation rest, Stepped run n thread thread' →
    thread.panicking = none → thread.control = activation :: rest →
    (thread'.Escaping ↔ ∃ id payload,
      Machine.refused? (run n).heap { thread with control := rest } activation = some (id, payload))
  /-- The fiber of the refused task is lost. -/
  refused : ∀ n thread thread' activation rest id payload, Stepped run n thread thread' →
    thread.panicking = none → thread.control = activation :: rest →
    Machine.refused? (run n).heap { thread with control := rest } activation = some (id, payload) →
    thread'.panicking = some payload ∧ Lost run id (n + 1)
  /-- So it is if user code asks for the task; but then the panic is at a guard. -/
  requested : ∀ n thread thread' activation rest (α : Type) (keep : Code σ α → Activation σ) code id
    payload, Stepped run n thread thread' → thread.panicking = none →
    thread.control = activation :: rest → activation.Holds keep code →
    Machine.refusedRequest? (run n).heap { thread with control := rest } code = some (id, payload) →
    (∃ left, thread' = { thread with control := keep left :: rest, panicking := some payload }) ∧
      Lost run id (n + 1)
  /-- A panic that gets past the guards takes the loop that it meets along, with its fiber, and the
  batches that are queued when it meets their drain, with theirs. -/
  dropped : ∀ n thread thread' activation rest, Stepped run n thread thread' → thread.Escaping →
    thread.control = activation :: rest →
    thread'.control = rest ∧ thread'.panicking = thread.panicking ∧
      (∀ id focus stack, activation = .loop id focus stack → Lost run id (n + 1)) ∧
      ∀ outer queue batch, activation = .draining outer → thread.pending = some queue →
        batch ∈ queue.toList → Lost run batch.fiber (n + 1)
  /-- There is no other way for a panic to be past the guards. -/
  only : ∀ n, ∀ thread' ∈ (run (n + 1)).threads, thread'.Escaping →
    thread' ∈ (run n).threads ∨ ∃ thread, Stepped run n thread thread' ∧
      (thread.Escaping ∨ thread.panicking = none ∧ ∃ activation rest id payload,
        thread.control = activation :: rest ∧ Machine.refused? (run n).heap
          { thread with control := rest } activation = some (id, payload))
  /-- If no executor ever refuses a task, every panic is contained. -/
  willing : (∀ n executor, (run n).heap.refusal? executor = none) →
    (∀ thread ∈ (run 0).threads, ¬thread.Escaping) →
    ∀ n, ∀ thread ∈ (run n).threads, ¬thread.Escaping

theorem Run.only_refusals_escape (h : Run run) (known : thread' ∈ (run (n + 1)).threads)
    (escaping : thread'.Escaping) :
    thread' ∈ (run n).threads ∨ ∃ thread, Stepped run n thread thread' ∧
      (thread.Escaping ∨ thread.panicking = none ∧ ∃ activation rest id payload,
        thread.control = activation :: rest ∧ Machine.refused? (run n).heap
          { thread with control := rest } activation = some (id, payload)) := by
  obtain ⟨i, known⟩ := List.getElem?_of_mem known
  rcases h.get_cases known with old | commences | ⟨thread, steps, rfl⟩
  · exact .inl (List.mem_of_getElem? old)
  · exact absurd escaping commences.not_escaping
  · have nested := nested_of_reachable (h.reachable n) thread (List.mem_of_getElem? steps.before)
    exact .inr ⟨thread, steps.stepped, Machine.escaping_step (steps.steady h) nested escaping⟩

theorem Run.not_escaping_of_willing (h : Run run)
    (willing : ∀ n executor, (run n).heap.refusal? executor = none)
    (calm : ∀ thread ∈ (run 0).threads, ¬thread.Escaping) (known : thread ∈ (run n).threads) :
    ¬thread.Escaping := by
  -- By induction on the step in which a panic first gets past the guards.
  induction n generalizing thread with
  | zero => exact calm thread known
  | succ n ih =>
    intro escaping
    rcases h.only_refusals_escape known escaping with old | ⟨before, stepped, origin⟩
    · exact ih old escaping
    · rcases origin with already | ⟨_, activation, rest, id, payload, _, refused⟩
      · exact ih stepped.threads.symm.mem_new already
      · obtain ⟨⟨target, executor⟩, _, refuses⟩ := Option.bind_eq_some_iff.mp refused
        simp [willing] at refuses

theorem Stepped.dropped (stepped : Stepped run n thread thread') (h : Run run)
    (escaping : thread.Escaping) (control : thread.control = activation :: rest) :
    thread'.control = rest ∧ thread'.panicking = thread.panicking ∧
      (∀ id focus stack, activation = .loop id focus stack → Lost run id (n + 1)) ∧
      ∀ outer queue batch, activation = .draining outer → thread.pending = some queue →
        batch ∈ queue.toList → Lost run batch.fiber (n + 1) := by
  obtain ⟨raised, top, under, whole, interprets⟩ := escaping
  obtain ⟨payload, panicking⟩ := Option.isSome_iff_exists.mp raised
  cases control.symm.trans whole
  obtain ⟨left, still⟩ :=
    Machine.step_of_interprets (run n).heap panicking control interprets
  rw [← stepped.stepped] at left still
  refine ⟨left, still, ?_, ?_⟩
  · rintro id focus stack rfl
    exact stepped.lost_of_loop h panicking control interprets
  · rintro outer queue batch rfl pending queued
    exact stepped.lost_of_draining h panicking control pending queued

/-- All panics of all runs are contained, but for those of executors that refuse what the
interpreter hands to them. -/
theorem panics_contained (h : Run run) : Containment run where
  caught _ _ _ _ _ _ _ _ _ stepped control panics caught := stepped.caught h control panics caught
  swallowed _ _ _ _ _ _ stepped control panics := stepped.swallowed control panics
  escapes n thread thread' activation rest stepped calm control := by
    have nested := nested_of_reachable (h.reachable n) thread stepped.threads.symm.mem_new
    have steady := stepped.threads.steady (h.owned n)
    rw [stepped.stepped]
    exact (Machine.advanced_step steady calm control).escaping_iff (control ▸ nested)
  refused _ _ _ _ _ _ _ stepped calm control refused :=
    stepped.lost_of_refused h calm control refused
  requested _ _ _ _ _ _ _ _ _ _ stepped calm control holds refused :=
    stepped.lost_of_requested h calm control holds refused
  dropped _ _ _ _ _ stepped escaping control := stepped.dropped h escaping control
  only _ _ known escaping := h.only_refusals_escape known escaping
  willing willing calm _ _ known := h.not_escaping_of_willing willing calm known

/-- An effect whose code panics, with a handler that counts its runs. -/
def tripped : Effect Nat .unit :=
  Effect.foldCauseEffect (Effect.succeed (.panic (.message "tripped")) : Effect Nat .unit)
    (fun _ => .done counted) fun _ => .done Effect.unit

/-- The handler has the defect and counts it, and the fiber ends well. -/
theorem panics_contained_tripped :
    let run := trial 0 (launched tripped)
    Containment run ∧
      (∃ handler, (run 3).places ⟨1⟩ =
          {.active (.thunk (.panic (.message "tripped"))) [.fold handler]} ∧
        (run 4).places ⟨1⟩ = {.active (.cause (.die "tripped")) [.fold handler]} ∧
        Delivers run ⟨1⟩ 4 (.die "tripped") [.fold handler]) ∧
      (run 8).heap.world = 1 ∧ (run 10).heap.poll ⟨1⟩ = some (.success .unit) := by
  have contained := panics_contained (run_trial 0 (launched tripped))
  have panics : ∀ stack, (trial 0 (launched tripped) 3).main.Panics
      (.loop ⟨1⟩ (.thunk (.panic (.message "tripped"))) stack) (.message "tripped") :=
    fun stack => .own rfl (.thunk _ _ stack)
  have stepped : Stepped (trial 0 (launched tripped)) 3 (trial 0 (launched tripped) 3).main
      (trial 0 (launched tripped) 4).main := ⟨rfl, rfl, replaces_main _ _ _ _ _⟩
  obtain ⟨_, place, _, delivers⟩ := contained.caught 3 _ _ _ _ _ _ _ _ stepped rfl (panics _) rfl
  exact ⟨contained, ⟨_, rfl, place, delivers⟩, rfl, rfl⟩

/-- An executor that panics with every task. -/
def declining : Executor σ := { name := "declining", discipline := .refuse (.message "declined") }

/-- A program on a bare machine with one more executor, which declines every task, after a number of
steps. -/
def declined (state : σ) (program : Code σ Unit) : Nat → World σ
  | 0 =>
    { bare state with
      heap := { (bare state).heap with executors := (bare state).heap.executors.push declining }
      main := (bare state).main.push (.program program) }
  | n + 1 => (declined state program n).stepMain

theorem run_declined (state : σ) (program : Code σ Unit) : Run (declined state program) := by
  refine ⟨⟨bare state, fresh_bare state, ?_⟩, fun _ => step_stepMain _⟩
  have engaged : (bare state).Step { bare state with
      heap := { (bare state).heap with
        executors := (bare state).heap.executors.push declining } } :=
    .engage rfl rfl rfl
  have idle : (bare state).main.control = [] := rfl
  exact .tail (.single engaged) (.begin idle [program] rfl (replaces_main _ _ _ _ _))

/-- An effect forks a fiber that counts its runs, and moves to the executor that declines; its
handler would count too. -/
def abandoned : Effect Nat .unit :=
  (counted.fork.flatMap fun _ => .done (Effect.shift ⟨1⟩)).foldCauseEffect
    (fun _ => .done counted) fun _ => .done Effect.unit

/-- The executor panics with the shift. The panic gets past the guards: the handler above the effect
does not run, its fiber is lost, and so is the fiber that is queued behind it. -/
theorem handler_bypassed :
    let run := declined 0 (launched abandoned)
    Run run ∧
      (∃ handler, (run 10).places ⟨1⟩ = {.active (.node (.shift ⟨1⟩)) [.fold handler]}) ∧
      (run 10).places ⟨2⟩ = {.active (.node counted.node) []} ∧
      (run 11).main.Escaping ∧ Lost run ⟨1⟩ 11 ∧ Lost run ⟨2⟩ 12 ∧
      (run 13).main.control = [] ∧ (run 13).heap.world = 0 ∧ (run 13).heap.defects = 0 := by
  have running := run_declined 0 (launched abandoned)
  refine ⟨running, ⟨_, rfl⟩, rfl, ⟨rfl, _, _, rfl, rfl⟩, running.lost ⟨0, by decide, rfl⟩ rfl rfl,
    running.lost ⟨1, by decide, rfl⟩ rfl rfl, rfl, rfl, rfl⟩

end World

end Fibers
