import Fibers.Proofs.Machine.Loop
import Fibers.Proofs.Machine.Turn

/-!
# Acts

The innermost loop of a thread is the only thing that a step of the thread can advance.

## Main results

`Machine.advances_stepLoop` says that a step of a loop is a step of the strand of its fiber, unless
it ends or loses the fiber. `Machine.advances_step` extends this to the steps of a thread whose
innermost activation is a loop, and `Machine.turn_step` covers all others.

## Proof strategy

The loop has been taken off its thread, so its fiber stands nowhere else. `advances_refocus` covers
the steps that put the loop back after a change of what belongs to the fiber, `advances_perform`
those that carry out a request of its user code. Forks, shifts, suspensions and completions are
left.
-/

namespace Fibers

variable {σ : Type}

/-- What a step does to the fiber that acts in it. -/
inductive Acts (id : FiberId) (strand : Strand σ) (after : Scene σ) : Prop where
  /-- The fiber goes on. -/
  | moved (strand' : Strand σ) (fiber' : FiberState σ)
      (place : after.places id = {strand'.place})
      (state : after.heap.fiber? id = some fiber') (running : fiber'.exit? = none)
      (holding : fiber'.holding = strand'.holding) (moves : strand.Moves strand')
      (calling : strand'.calling = false → ∀ activation, after.covered activation →
        ¬activation.Runs id)
  /-- The fiber is lost: an executor has dropped its batch or has panicked. -/
  | lost (fiber' : FiberState σ) (nowhere : after.places id = 0)
      (state : after.heap.fiber? id = some fiber') (running : fiber'.exit? = none)
  /-- The fiber ends. -/
  | completed (fiber' : FiberState σ) (exit : Exit Erased) (nowhere : after.places id = 0)
      (state : after.heap.fiber? id = some fiber') (ended : fiber'.exit? = some exit)
      (reaches : strand.place.Reaches [] exit)

/-- What a fiber does on one thread it does in view of threads on which it is not. -/
theorem Acts.add {id : FiberId} {strand : Strand σ} {after : Scene σ} (h : Acts id strand after)
    {threads : List (Thread σ)} (nowhere : (threads.map fun thread => thread.places id).sum = 0) :
    Acts id strand (after.add threads) := by
  have same : (after.add threads).places id = after.places id := by
    simp only [Scene.add, nowhere, add_zero]
  cases h with
  | moved strand' fiber' place state running holding moves calling =>
    refine .moved strand' fiber' (same.trans place) state running holding moves ?_
    rintro idle activation (mem | ⟨thread, known, mem⟩) runs
    · exact calling idle activation mem runs
    · have le := Activation.places_le (Thread.mem_control_of_covered mem) id
      have none := List.sum_eq_zero_iff.mp nowhere _ (List.mem_map_of_mem known)
      exact runs.places_ne_zero (Multiset.le_zero.mp (none ▸ le))
  | lost fiber' nowhere state running => exact .lost fiber' (same.trans nowhere) state running
  | completed fiber' exit nowhere state ended reaches =>
    exact .completed fiber' exit (same.trans nowhere) state ended reaches

namespace Machine

/-- What a step of a loop does, to its own fiber and to all others. -/
structure Advances (id : FiberId) (strand : Strand σ) (heap : Heap σ) (thread : Thread σ)
    (after : Heap σ × Thread σ) : Prop where
  turn : Turn (· = id) (taken heap thread) (scene after.1 after.2)
  acts : Acts id strand (scene after.1 after.2)

/-- The loop of a fiber has been taken off its thread, and the fiber stands nowhere else. -/
structure Alone (heap : Heap σ) (thread : Thread σ) (id : FiberId) (fiber : FiberState σ) :
    Prop where
  knows : heap.Knows id
  state : heap.fiber? id = some fiber
  running : fiber.exit? = none
  nowhere : held heap thread id = 0
  calm : thread.panicking = none

variable {heap middle heap' : Heap σ} {thread thread' : Thread σ} {id : FiberId}
  {fiber fiber' : FiberState σ} {strand : Strand σ} {focus : Focus σ} {stack : List (Frame σ)}

theorem Alone.inHeap (alone : Alone heap thread id fiber) : heap.places id = 0 :=
  (add_eq_zero.mp alone.nowhere).1

theorem Alone.onThread (alone : Alone heap thread id fiber) : thread.places id = 0 :=
  (add_eq_zero.mp alone.nowhere).2

theorem Alone.not_runs (alone : Alone heap thread id fiber) {activation : Activation σ}
    (mem : activation ∈ thread.control) : ¬activation.Runs id := fun runs =>
  runs.places_ne_zero (Multiset.le_zero.mp (alone.onThread ▸ Activation.places_le mem id))

/-! ### Steps that put the loop back -/

theorem held_of_loop (handed : Handover heap (thread.push (.loop id focus stack)) heap' thread')
    (alone : Alone heap thread id fiber) : held heap' thread' id = {.active focus stack} := by
  obtain ⟨gained, gain, handed⟩ := handed.known id alone.knows
  obtain ⟨inHeap, none⟩ := add_eq_zero.mp (handed.eq_zero alone.inHeap)
  rw [held, gain, inHeap, none, Thread.places_push, alone.onThread, Activation.places, if_pos rfl]
  rfl

theorem Alone.of_ownChange (alone : Alone heap thread id fiber)
    (own : heap.OwnChange id fiber' middle) (nowhere : middle.places id = 0)
    (running : fiber'.exit? = none) : Alone middle thread id fiber' where
  knows := (own.known id).mp alone.knows
  state := own.own
  running := running
  nowhere := by rw [held, nowhere, alone.onThread, add_zero]
  calm := alone.calm

theorem advances_refocus (alone : Alone heap thread id fiber)
    (own : heap.OwnChange id fiber' middle) (nowhere : middle.places id = 0)
    (running : fiber'.exit? = none)
    (moves : strand.Moves ⟨.active focus stack, fiber'.holding, false⟩)
    (meets : (Activation.loop id focus stack).Meets middle) :
    Advances id strand heap thread (middle, refocus thread id focus stack) := by
  have alone' := alone.of_ownChange own nowhere running
  have handed : Handover middle (thread.push (.loop id focus stack)) middle
      (thread.push (.loop id focus stack)) := .of_kept (.refl middle) (Thread.kept_refl _)
  refine ⟨.of_ownChange own alone.knows (.of_loop handed alone.calm alone'.knows meets),
    .moved ⟨.active focus stack, fiber'.holding, false⟩ fiber' (held_of_loop handed alone') own.own
      running rfl moves fun _ activation mem => ?_⟩
  have mem : activation ∈ (thread.push (.loop id focus stack)).covered := mem
  have calm : (thread.push (.loop id focus stack)).panicking = none := alone.calm
  rw [Thread.covered_of_calm calm] at mem
  exact alone.not_runs mem

/-- A step that changes only what is looked at. -/
theorem advances_focus (alone : Alone heap thread id fiber)
    (moves : strand.Moves ⟨.active focus stack, fiber.holding, false⟩)
    (meets : (Activation.loop id focus stack).Meets heap) :
    Advances id strand heap thread (heap, refocus thread id focus stack) :=
  advances_refocus alone (Heap.ownChange_refl alone.state) alone.inHeap alone.running moves meets

theorem exists_request_of_kept (kept : fiber.Kept fiber') (place : Place σ) (calling : Bool) :
    ∃ asked : Strand σ, asked = ⟨place, fiber'.holding, calling⟩ ∧
      (asked = ⟨place, fiber.holding, calling⟩ ∨
        asked = (Strand.mk place fiber.holding calling).request) := by
  refine ⟨_, rfl, ?_⟩
  obtain ⟨environments, executor, flags, _⟩ := kept
  rcases flags with same | raised
  · exact .inl (by simp only [FiberState.holding, environments, executor, same])
  · right
    simp only [FiberState.holding, environments, executor, raised]
    rfl

theorem advances_perform {α : Type} {keep : Code σ α → Focus σ} {code : Code σ α} {calling : Bool}
    (alone : Alone heap thread id fiber) (own : ∀ payload, code ≠ .panic payload)
    (answered : ∀ answer rest, code.answered answer = some rest →
      (keep code).Answered answer (keep rest))
    (meets : ∀ rest, (Activation.loop id (keep rest) stack).Meets heap) :
    Advances id ⟨.active (keep code) stack, fiber.holding, calling⟩ heap thread
      (perform heap thread (fun code => .loop id (keep code) stack) code) := by
  obtain ⟨rest, next, handed⟩ :=
    exists_perform_handover heap thread (fun code => .loop id (keep code) stack) code
  obtain ⟨fiber', state, kept⟩ := handed.fibers id.index fiber alone.state
  obtain ⟨asked, whole, before⟩ := exists_request_of_kept kept (.active (keep code) stack) calling
  have place := held_of_loop handed alone
  refine ⟨.of_loop handed alone.calm alone.knows (meets rest), ?_⟩
  subst whole
  rcases next with ⟨answer, next⟩ | ⟨rfl, stays⟩
  · exact .moved ⟨.active (keep rest) stack, fiber'.holding, true⟩ fiber' place state
      (kept.exit.trans alone.running) rfl
      ⟨_, before, .inr ⟨some (.answer answer), .answered (answered answer rest next)⟩⟩
      fun idle => by cases idle
  · refine .moved ⟨.active (keep rest) stack, fiber'.holding, calling⟩ fiber' place state
      (kept.exit.trans alone.running) rfl ⟨_, before, .inl rfl⟩ fun _ activation mem => ?_
    have mem : activation ∈ (thread.push (.loop id (keep rest) stack)).covered := by
      rw [← stays own]
      exact mem
    have calm : (thread.push (.loop id (keep rest) stack)).panicking = none := alone.calm
    rw [Thread.covered_of_calm calm] at mem
    exact alone.not_runs mem

/-! ### Steps that end the loop -/

theorem advances_completeFiber {exit : Exit Erased} (alone : Alone heap thread id fiber)
    (reaches : strand.place.Reaches [] exit) :
    Advances id strand heap thread (completeFiber heap thread id exit) := by
  obtain ⟨progress, flags, environments, executor, seed⟩ := fiber
  cases progress with
  | done other => cases alone.running
  | running observers =>
    rw [completeFiber, alone.state]
    have own := (Heap.ownChange_updateFiber alone.knows alone.state (f := fun fiber =>
      { fiber with progress := .done exit }) fun _ => rfl).report thread.id .debug
        fun _ => .fiberCompleted id exit.isSuccess observers.length
    have ended : thread.Kept (thread.push (.notifying exit observers)) :=
      thread.kept_push (fun _ => rfl) fun _ => trivial
    refine
      ⟨.of_ownChange own alone.knows (.of_handover (.of_kept (.refl _) ended) alone.calm _), ?_⟩
    refine .completed _ exit ?_ own.own rfl reaches
    dsimp only [held]
    rw [ended.places, alone.onThread, add_zero, Heap.places_report]
    refine (heap.places_updateFiber id id _ ?_).trans alone.inHeap
    exact fun _ => rfl

/-- A batch of the fiber goes to an executor, or is dropped. -/
theorem advances_of_executes {task : Task σ} {after : Heap σ × Thread σ}
    (alone : Alone heap thread id fiber) (own : heap.OwnChange id fiber' middle)
    (nowhere : middle.places id = 0) (running : fiber'.exit? = none)
    (executes : Executes middle thread task after.1 after.2) (mine : task.batch.fiber = id)
    (moves : strand.Moves
      ⟨.active (.node task.batch.current) task.batch.stack, fiber'.holding, false⟩) :
    Advances id strand heap thread after := by
  have alone' := alone.of_ownChange own nowhere running
  obtain ⟨gained, gain, inHeap⟩ := executes.places id
  have whole : held after.1 after.2 id = after.1.places id + gained := by
    rw [held, gain, alone'.onThread, add_zero]
  rw [nowhere, add_zero, Batch.places, if_pos mine] at inHeap
  have state : after.1.fiber? id = some fiber' := by
    rw [Heap.fiber?, executes.fibers]
    exact own.own
  subst mine
  refine ⟨.of_ownChange own alone.knows (.of_executes executes alone.calm alone'.knows), ?_⟩
  rcases inHeap with moved | lost
  · refine .moved _ fiber' (whole.trans moved) state running rfl moves fun _ activation mem runs =>
      ?_
    exact alone.not_runs (executes.control.covered alone.calm activation mem _ runs) runs
  · exact .lost fiber' (whole.trans lost) state running

/-! ### Forks and suspensions -/

end Machine

theorem Heap.lt_size_of_fiber? {heap : Heap σ} {id : FiberId} {fiber : FiberState σ}
    (present : heap.fiber? id = some fiber) : id.index < heap.fibers.size :=
  (Array.getElem?_eq_some_iff.mp present).1

namespace Machine

variable {heap : Heap σ} {thread : Thread σ} {id : FiberId} {fiber : FiberState σ}
  {stack : List (Frame σ)} {calling : Bool}

/-- A parent is put back before its child starts. -/
theorem advances_fork {effect : Node σ} (alone : Alone heap thread id fiber)
    (undue : fiber.flags.shouldInterrupt = false) :
    Advances id ⟨.active (.node (.fork effect)) stack, fiber.holding, calling⟩ heap thread
      (fork heap thread id effect stack) := by
  obtain ⟨event, reported, child, rfl, next, seed, unobserved, _, forked⟩ :=
    exists_fork_eq heap thread id effect stack
  have own := (Heap.ownChange_refl alone.state).report thread.id .debug event
  have alone' := alone.of_ownChange own (by rw [Heap.places_report, alone.inHeap]) alone.running
  rw [forked]
  generalize heap.report thread.id .debug event = reported at own alone' ⊢
  have running : child.exit? = none := by rw [FiberState.exit?, unobserved]
  have handed := handover_start reported
    (thread.push (.loop id (.value ⟨.context, reported.nextFiber⟩) stack)) seed running false
  have executes := executes_start reported
    (thread.push (.loop id (.value ⟨.context, reported.nextFiber⟩) stack)) seed false
  refine ⟨.of_ownChange own alone.knows (.of_loop handed alone.calm alone'.knows trivial), ?_⟩
  refine .moved ⟨.active (.value ⟨.context, reported.nextFiber⟩) stack, fiber.holding, true⟩ fiber
    (held_of_loop handed alone') ?_ alone.running rfl (.of_step (.interpreted undue (.fork _ _)))
    fun idle => by cases idle
  have old := Heap.lt_size_of_fiber? own.own
  have fibers := executes.fibers
  rw [Heap.fiber?, refocus, fibers, Heap.fibers_launch, if_neg old.ne]
  exact own.own

theorem advances_park {callback : CallbackId} (alone : Alone heap thread id fiber)
    (meets : (Activation.loop id (.registering callback (.done ())) stack).Meets heap) :
    Advances id ⟨.active (.registering callback (.done ())) stack, fiber.holding, calling⟩ heap
      thread
      (park heap thread id callback stack) := by
  obtain ⟨⟨owner, state⟩, present, own, meeting⟩ := meets
  rw [park, present]
  cases state with
  | completed value =>
    obtain ⟨rest, before, after⟩ := Heap.places_setRendezvous present .resumed id
    have none := (add_eq_zero.mp (before.symm.trans alone.inHeap)).2
    refine advances_refocus alone (Heap.ownChange_setRendezvous alone.state present own .resumed)
      ?_ alone.running (.of_step .met) trivial
    rw [after, none]
    rfl
  | registering =>
    obtain ⟨rest, before, after⟩ := Heap.places_setRendezvous present (.parked stack) id
    have none := (add_eq_zero.mp (before.symm.trans alone.inHeap)).2
    have own' := (Heap.ownChange_setRendezvous alone.state present own (.parked stack)).report
      thread.id .trace fun _ => .fiberSuspended id
    have ended : thread.Kept thread := thread.kept_refl
    cases own
    refine ⟨.of_ownChange own' alone.knows (.of_handover (.of_kept (.refl _) ended) alone.calm _),
      ?_⟩
    refine .moved ⟨.suspended callback stack, fiber.holding, false⟩ fiber ?_ own'.own alone.running
      rfl (.of_step .parked) fun _ activation mem =>
        alone.not_runs (Thread.mem_control_of_covered mem)
    dsimp only [held]
    rw [alone.onThread, add_zero, Heap.places_report, after, none]
    simp only [Suspension.places, if_pos, add_zero]
  | parked => cases meeting
  | resumed => cases meeting
  | abandoned => cases meeting

/-! ### A whole step of a loop -/

theorem Alone.shouldInterrupt (alone : Alone heap thread id fiber) :
    heap.shouldInterrupt id = fiber.flags.shouldInterrupt := by
  rw [Heap.shouldInterrupt, alone.state]

theorem advances_beginInterruption {current : Node σ} (alone : Alone heap thread id fiber)
    (due : fiber.flags.shouldInterrupt = true) :
    Advances id ⟨.active (.node current) stack, fiber.holding, calling⟩ heap thread
      (beginInterruption heap thread id stack current) := by
  have own := (Heap.ownChange_updateFiber alone.knows alone.state (f := fun fiber =>
    { fiber with flags := fiber.flags.beginFinalizing }) fun _ => rfl).report thread.id .debug
      fun _ => .interruptionTakingEffect id current.kind
  refine advances_refocus alone own ?_ alone.running (.of_step (.interrupted due)) trivial
  rw [Heap.places_report]
  exact (heap.places_updateFlags id id _).trans alone.inHeap

theorem advances_interpret {current : Node σ} (alone : Alone heap thread id fiber)
    (undue : fiber.flags.shouldInterrupt = false) :
    Advances id ⟨.active (.node current) stack, fiber.holding, calling⟩ heap thread
      (interpret heap thread id stack current) := by
  have moves : ∀ {strand' : Strand σ},
      current.Interprets stack fiber.holding none strand' →
      Strand.Moves ⟨.active (.node current) stack, fiber.holding, calling⟩ strand' :=
    fun meaning => .of_step (.interpreted undue meaning)
  have reported : ∀ severity event,
      heap.OwnChange id fiber (heap.report thread.id severity event) :=
    (Heap.ownChange_refl alone.state).report thread.id
  have inReport : ∀ severity event, (heap.report thread.id severity event).places id = 0 :=
    fun severity event => (heap.places_report thread.id severity event id).trans alone.inHeap
  cases current with
  | succeed value => exact advances_focus alone (moves (.succeed value)) trivial
  | sync code => exact advances_focus alone (moves (.sync code)) trivial
  | flatMap effect continuation =>
    exact advances_refocus alone (reported _ _) (inReport _ _) alone.running
      (moves (.flatMap effect continuation)) trivial
  -- The suspension that is added waits for a result, so the activation meets it at once.
  | async register =>
    refine advances_refocus alone (Heap.ownChange_addSuspension alone.state)
      ((heap.places_addSuspension id id).trans alone.inHeap) alone.running
      (.of_step (.interpreted undue (.async register heap.nextCallback))) ?_
    exact ⟨{ fiber := id }, by simp [Heap.suspension?, Heap.addSuspension, Heap.nextCallback], rfl,
      rfl⟩
  | fork effect => exact advances_fork alone undue
  | fail code => exact advances_focus alone (moves (.fail code)) trivial
  | fold effect handler =>
    exact advances_refocus alone (reported _ _) (inReport _ _) alone.running
      (moves (.fold effect handler)) trivial
  | shift executor =>
    have own := (Heap.ownChange_updateFiber alone.knows alone.state (f := fun fiber =>
      { fiber with executor := executor }) fun _ => rfl).report thread.id .trace
        fun _ => .executorShifted id (heap.executorName executor)
    refine advances_of_executes alone own ?_ alone.running (executes_execute _ _ _ _) rfl
      (moves (.shift executor))
    rw [Heap.places_report]
    exact (heap.places_setExecutor id id executor).trans alone.inHeap
  | withStatus effect status =>
    have own := Heap.ownChange_updateFiber alone.knows alone.state (f := fun fiber =>
      { fiber with flags := fiber.flags.setStatus status }) fun _ => rfl
    rw [interpret, Heap.status, alone.state]
    exact advances_refocus alone own ((heap.places_updateFlags id id _).trans alone.inHeap)
      alone.running (moves (.withStatus effect status)) trivial
  | provide effect environment =>
    have own := Heap.ownChange_updateFiber alone.knows alone.state (f := fun fiber =>
      { fiber with environments := environment :: fiber.environments }) fun _ => rfl
    exact advances_refocus alone own ((heap.places_enterScope id id environment).trans alone.inHeap)
      alone.running (moves (.provide effect environment)) trivial
  | access continuation =>
    have provided : heap.environments id = fiber.environments := by
      rw [Heap.environments, alone.state]
    rw [interpret, provided]
    cases provided : fiber.environments with
    | nil => exact advances_focus alone (moves (.accessNothing continuation provided)) trivial
    | cons environment outer =>
      exact advances_focus alone (moves (.access continuation provided)) trivial
  | restoreStatus status =>
    have own := Heap.ownChange_updateFiber alone.knows alone.state (f := fun fiber =>
      { fiber with flags := fiber.flags.setStatus status }) fun _ => rfl
    exact advances_refocus alone own ((heap.places_updateFlags id id _).trans alone.inHeap)
      alone.running (moves (.restoreStatus status)) trivial
  | leaveScope =>
    have own := Heap.ownChange_updateFiber alone.knows alone.state (f := fun fiber =>
      { fiber with environments := fiber.environments.tail }) fun _ => rfl
    exact advances_refocus alone own ((heap.places_leaveScope id id).trans alone.inHeap)
      alone.running (moves .leaveScope) trivial

/-! ### Panics in a loop -/

theorem Advances.of_calm {strand : Strand σ} {after : Heap σ × Thread σ}
    (h : Advances id strand heap { thread with panicking := none } after) :
    Advances id strand heap thread after :=
  ⟨⟨h.turn.known, h.turn.unknown, h.turn.knows, h.turn.fibers, h.turn.newcomers,
    h.turn.suspensions, h.turn.control, h.turn.covered⟩, h.acts⟩

/-- A panic of user code becomes a defect of the fiber; any other panic ends the loop. -/
theorem advances_unwindLoop {focus : Focus σ} {payload : Payload}
    (alone : Alone heap { thread with panicking := none } id fiber)
    (meets : (Activation.loop id focus stack).Meets heap)
    (moves : ∀ next, focus.caught payload = some next →
      Strand.Moves ⟨.active focus stack, fiber.holding, calling⟩
        ⟨.active next stack, fiber.holding, false⟩) :
    Advances id ⟨.active focus stack, fiber.holding, calling⟩ heap thread
      (unwindLoop heap thread payload id stack focus) := by
  have noted := (Heap.ownChange_refl alone.state).noteDefect thread.id payload
  have inNoted := (heap.places_noteDefect thread.id payload id).trans alone.inHeap
  have dropped : Advances id ⟨.active focus stack, fiber.holding, calling⟩ heap thread
      (heap, thread) :=
    ⟨.of_le (Heap.Kept.refl heap).toQuiet (fun _ => le_rfl) (fun _ => .inl)
      fun _ _ mem _ => Thread.mem_control_of_covered mem,
      .lost fiber alone.nowhere alone.state alone.running⟩
  cases focus with
  | node | value | cause => exact dropped
  | thunk | raising | building =>
    exact (advances_refocus alone noted inNoted alone.running (moves _ rfl) (by trivial)).of_calm
  | registering callback code =>
    obtain ⟨suspension, present, own, meeting⟩ := meets
    have present' : (heap.noteDefect thread.id payload).suspension? callback = some suspension := by
      rw [Heap.noteDefect, Heap.suspension?, (Heap.tables_report _ _ _ _).2]
      exact present
    obtain ⟨rest, before, after⟩ := Heap.places_setRendezvous present' .abandoned id
    have none := (add_eq_zero.mp (before.symm.trans inNoted)).2
    refine (advances_refocus alone
      (noted.trans (Heap.ownChange_setRendezvous noted.own present' own .abandoned)) ?_
      alone.running (moves _ rfl) (by trivial)).of_calm
    rw [after, none]
    rfl

/-- A step of a loop is a step of the strand of its fiber, unless the fiber ends or is lost. -/
theorem advances_stepLoop {focus : Focus σ} (alone : Alone heap thread id fiber)
    (meets : (Activation.loop id focus stack).Meets heap) :
    Advances id ⟨.active focus stack, fiber.holding, calling⟩ heap thread
      (stepLoop heap thread id stack focus) := by
  -- Unwinding starts by clearing the panic, so the thread that unwinds is calm.
  have calmed : Alone heap { thread with panicking := none } id fiber :=
    ⟨alone.knows, alone.state, alone.running, alone.nowhere, rfl⟩
  have turn := turns_stepLoop heap thread id stack focus
  generalize stepLoop heap thread id stack focus = next at turn ⊢
  cases turn with
  | interrupts due => exact advances_beginInterruption alone (alone.shouldInterrupt ▸ due)
  | interprets undue => exact advances_interpret alone (alone.shouldInterrupt ▸ undue)
  | @delivers _ _ rest =>
    have own := (Heap.ownChange_refl alone.state).report thread.id .trace
      fun _ => .continuationPopped id rest.length
    exact advances_refocus alone own ((heap.places_report _ _ _ id).trans alone.inHeap)
      alone.running (.of_step .delivered) trivial
  | succeeds => exact advances_completeFiber alone (.value _)
  | handles found => exact advances_focus alone (.of_step (.handled found)) trivial
  | @fails cause _ missing =>
    -- No fold is left on the stack, so the cause reaches the end of the fiber.
    obtain ⟨dropped, rfl⟩ := unwind_eq_none_iff.mp missing
    have reaches : Place.Reaches [] (.active (.cause cause) (dropped.map .apply ++ []))
      (.failure cause) := .cause cause dropped
    rw [List.append_nil] at reaches
    exact advances_completeFiber alone reaches
  | hands ended =>
    refine advances_focus alone (.of_step (.ended ended)) ?_
    cases ended <;> exact trivial
  | parks => exact advances_park alone meets
  | panics panics =>
    exact advances_unwindLoop calmed meets fun next caught => .of_step (.panicked panics caught)
  | @requests _ _ _ _ code holds going =>
    have own (payload : Payload) : code ≠ .panic payload := by
      rintro rfl
      cases going
    cases holds with
    | thunk => exact advances_perform alone own (fun _ _ next => .thunk next) fun _ => trivial
    | raising => exact advances_perform alone own (fun _ _ next => .raising next) fun _ => trivial
    | building => exact advances_perform alone own (fun _ _ next => .building next) fun _ => trivial
    | registering =>
      exact advances_perform alone own (fun _ _ next => .registering next) fun _ => meets

/-! ### Steps without a loop -/

end Machine

open Machine in
/-- An activation that holds no place of the others was taken off before the step. -/
theorem Turn.of_taken {acts : FiberId → Prop} {heap heap' : Heap σ} {thread thread' : Thread σ}
    {activation : Activation σ} {rest : List (Activation σ)}
    (h : Turn acts (taken heap { thread with control := rest }) (scene heap' thread'))
    (control : thread.control = activation :: rest)
    (places : ∀ id, ¬acts id → activation.places id = 0) :
    Turn acts (scene heap thread) (scene heap' thread') where
  known id known idle := by
    have handed := h.known id known idle
    dsimp only [held] at handed ⊢
    rwa [Thread.places_of_control control, places id idle, zero_add]
  unknown id unknown none := by
    dsimp only [held] at none
    rw [Thread.places_of_control control] at none
    obtain ⟨inHeap, onThread⟩ := add_eq_zero.mp none
    exact h.unknown id unknown (add_eq_zero.mpr ⟨inHeap, (add_eq_zero.mp onThread).2⟩)
  knows := h.knows
  fibers := h.fibers
  newcomers := h.newcomers
  suspensions := h.suspensions
  control other mem := by
    dsimp only
    rw [control]
    exact (h.control other mem).imp_left fun mem => List.mem_cons_of_mem _ mem
  covered other id mem runs idle :=
    Thread.mem_covered_of_control control (h.covered other id mem runs idle)

namespace Machine

variable {heap : Heap σ} {thread : Thread σ} {id : FiberId} {fiber : FiberState σ}
  {stack : List (Frame σ)} {calling : Bool}

/-- A thread loses places or moves them about. -/
theorem turn_of_le {heap' : Heap σ} {thread' : Thread σ} (acts : FiberId → Prop)
    (kept : heap.Kept heap') (le : ∀ id, thread'.places id ≤ thread.places id)
    (control : ∀ activation ∈ thread'.control,
      activation ∈ thread.control ∨ activation.Meets heap')
    (covered : ∀ activation ∈ thread'.covered, ∀ id, activation.Runs id →
      activation ∈ thread.covered) :
    Turn acts (scene heap thread) (scene heap' thread') := by
  refine .of_le kept.toQuiet (fun id => ?_) control fun activation id mem =>
    covered activation mem id
  dsimp only [held]
  rw [kept.places]
  exact add_le_add_right (le id) _

theorem Handover.of_pushed {heap' : Heap σ} {thread' : Thread σ} {activation : Activation σ}
    (h : Handover heap (thread.push activation) heap' thread')
    (places : ∀ id, activation.places id = 0) (meets : ∀ heap, activation.Meets heap) :
    Handover heap thread heap' thread' := by
  have same : ∀ id, (thread.push activation).places id = thread.places id := fun id => by
    rw [Thread.places_push, places, zero_add]
  refine ⟨?_, ?_, h.fibers, h.newcomers, h.suspensions, ?_⟩
  · simpa only [same] using h.known
  · simpa only [same] using h.unknown
  · obtain ⟨⟨begun, control, begunMeets⟩, covered⟩ := h.control
    refine ⟨⟨begun ++ [activation], ?_, fun other mem => ?_⟩, fun calm other mem id runs => ?_⟩
    · rw [control, List.append_assoc]
      rfl
    · rcases List.mem_append.mp mem with mem | mem
      · exact begunMeets other mem
      · rw [List.mem_singleton.mp mem]
        exact meets
    · rcases List.mem_cons.mp (covered calm other mem id runs) with rfl | mem
      · exact absurd (places id) runs.places_ne_zero
      · exact mem

/-- Code with no loop around it only hands work around. -/
theorem handover_perform {α : Type} {keep : Code σ α → Activation σ} (code : Code σ α)
    (places : ∀ rest id, (keep rest).places id = 0) (meets : ∀ rest heap, (keep rest).Meets heap) :
    Handover heap thread (perform heap thread keep code).1 (perform heap thread keep code).2 := by
  obtain ⟨rest, _, handed⟩ := exists_perform_handover heap thread keep code
  exact handed.of_pushed (places rest) (meets rest)

theorem handover_updateMailbox (mailbox : MailboxId) (f : Mailbox → Mailbox) {thread' : Thread σ}
    (kept : thread.Kept thread') : Handover heap thread (heap.updateMailbox mailbox f) thread' :=
  .of_kept (Heap.kept_of_tables rfl rfl rfl) kept

theorem turn_advance {activation : Activation σ} {rest : List (Activation σ)}
    (control : thread.control = activation :: rest) (calm : thread.panicking = none)
    (other : ∀ id focus stack, activation ≠ .loop id focus stack) (acts : FiberId → Prop) :
    Turn acts (scene heap thread)
      (scene (advance heap { thread with control := rest } activation).1
        (advance heap { thread with control := rest } activation).2) := by
  -- Whatever runs no fiber only hands work around.
  have plain : ∀ {heap' : Heap σ} {thread' : Thread σ}, (∀ id, activation.places id = 0) →
      Handover heap { thread with control := rest } heap' thread' →
      Turn acts (scene heap thread) (scene heap' thread') := fun places handed =>
    (Turn.of_handover handed calm acts).of_taken control fun id _ => places id
  have done : Handover heap { thread with control := rest } heap { thread with control := rest } :=
    .of_kept (.refl heap) (Thread.kept_refl _)
  unfold advance
  split
  next => exact plain (fun _ => rfl) done
  next code _ =>
    exact plain (fun _ => rfl) (handover_perform code (fun _ _ => rfl) fun _ _ => trivial)
  next => exact plain (fun _ => rfl) done
  next code _ =>
    exact plain (fun _ => rfl) (handover_perform code (fun _ _ => rfl) fun _ _ => trivial)
  next =>
    exact plain (fun _ => rfl)
      (handover_updateMailbox _ _ (Thread.kept_push _ (fun _ => rfl) fun _ => trivial))
  next => exact plain (fun _ => rfl) (handover_updateMailbox _ _ (Thread.kept_refl _))
  next id focus stack => exact absurd rfl (other id focus stack)
  next => exact plain (fun _ => rfl) done
  next exit observer observers =>
    exact plain (fun _ => rfl)
      ((handover_notify heap _ exit observer).of_pushed (fun _ => rfl) fun _ => trivial)
  next outer =>
    dsimp only
    split
    next batch queue popped =>
      obtain ⟨pending, waiting, popped⟩ := Option.bind_eq_some_iff.mp popped
      refine turn_of_le acts (.refl heap) (fun id => le_of_eq ?_) (fun activation mem => ?_)
        fun activation mem id runs => ?_
      · simp only [Thread.places, Thread.push, waiting, control, queuedPlaces_popFront popped,
          List.map_cons, List.sum_cons, Activation.places, Batch.places]
        abel
      · rcases List.mem_cons.mp mem with rfl | mem
        · exact .inr trivial
        · exact .inl (control ▸ mem)
      · -- The new loop is innermost, so no panic reaches it.
        simp only [Thread.covered, Thread.push, calm, Option.isSome_none, Bool.false_eq_true,
          if_false, List.tail_cons] at mem
        rcases List.mem_cons.mp mem with rfl | mem
        · cases runs
        · exact Thread.mem_covered_of_control control mem
    next none =>
      refine turn_of_le acts (.refl heap) (fun id => le_of_eq ?_) (fun activation mem => ?_)
        fun activation mem id runs => ?_
      · simp only [Thread.places, control, queuedPlaces_of_popFront_none none, List.map_cons,
          List.sum_cons, Activation.places, zero_add]
      · exact .inl (control ▸ List.mem_cons_of_mem _ mem)
      · exact Thread.mem_covered_of_control control (Thread.mem_control_of_covered mem)

/-- A panic takes an activation off its thread; a drain gives up the batches queued behind it. -/
theorem turn_takePanic {activation : Activation σ} {rest : List (Activation σ)} {payload : Payload}
    (control : thread.control = activation :: rest)
    (other : ∀ id focus stack, activation ≠ .loop id focus stack) (acts : FiberId → Prop) :
    Turn acts (scene heap thread)
      (scene (takePanic heap { thread with control := rest } payload activation).1
        (takePanic heap { thread with control := rest } payload activation).2) := by
  have counted : heap.Kept { heap with defects := heap.defects + 1 } :=
    Heap.kept_of_tables rfl rfl rfl
  have noted : heap.Kept (heap.noteDefect thread.id payload) :=
    counted.trans (Heap.kept_report _ _ _ _)
  -- What is left on the thread was under the activation.
  have left : ∀ {heap' : Heap σ} {thread' : Thread σ}, heap.Kept heap' →
      (∀ id, thread'.places id ≤ thread.places id) → thread'.control = rest →
      Turn acts (scene heap thread) (scene heap' thread') := by
    intro heap' thread' kept le same
    refine turn_of_le acts kept le (fun activation mem => .inl ?_) fun activation mem id _ => ?_
    · rw [control]
      exact List.mem_cons_of_mem _ (same ▸ mem)
    · exact Thread.mem_covered_of_control control (same ▸ Thread.mem_control_of_covered mem)
  have le : ∀ id, { thread with control := rest }.places id ≤ thread.places id := fun id =>
    Thread.places_of_control control id ▸ Multiset.le_add_left _ _
  cases activation with
  | program | notifying => exact left (.refl heap) le rfl
  | callback | posting | opening => exact left noted le rfl
  | loop id focus stack => exact absurd rfl (other id focus stack)
  | draining outer =>
    refine left (.refl heap) (fun id => ?_) rfl
    simp only [Thread.places, control, List.map_cons, List.sum_cons, Activation.places]
    exact Multiset.le_add_left _ _

theorem turn_crash {payload : Payload} (idle : thread.control = []) (acts : FiberId → Prop) :
    Turn acts (scene heap thread)
      (scene (crash heap thread payload).1 (crash heap thread payload).2) := by
  unfold crash
  split
  next =>
    dsimp only
    refine turn_of_le acts (heap.kept_report _ _ _) (fun _ => le_rfl) (fun _ => .inl)
      fun activation mem _ _ => ?_
    have none := idle ▸ Thread.mem_control_of_covered mem
    cases none
  next => exact turn_of_le acts (.refl heap) (fun _ => le_rfl) (fun _ => .inl) fun _ mem _ _ => mem

/-! ### Every step -/

/-- A step of a thread on which no loop is innermost is a turn of nobody. -/
theorem turn_step (heap : Heap σ) {thread : Thread σ}
    (other : ∀ id focus stack rest, thread.control ≠ .loop id focus stack :: rest)
    (acts : FiberId → Prop) :
    Turn acts (scene heap thread) (scene (step heap thread).1 (step heap thread).2) := by
  unfold step
  split
  next => exact turn_of_le acts (.refl heap) (fun _ => le_rfl) (fun _ => .inl) fun _ mem _ _ => mem
  next idle _ => exact turn_crash idle acts
  next activation rest control calm =>
    exact turn_advance control calm
      (fun id focus stack same => other id focus stack rest (same ▸ control)) acts
  next activation rest payload control _ =>
    exact turn_takePanic control
      (fun id focus stack same => other id focus stack rest (same ▸ control)) acts

/-- A step of a thread advances the fiber whose loop is innermost. -/
theorem advances_step {focus : Focus σ} {rest : List (Activation σ)}
    (control : thread.control = .loop id focus stack :: rest)
    (alone : Alone heap { thread with control := rest, panicking := none } id fiber)
    (meets : (Activation.loop id focus stack).Meets heap)
    (exposed : thread.panicking ≠ none → calling = true) :
    Advances id ⟨.active focus stack, fiber.holding, calling⟩ heap { thread with control := rest }
      (step heap thread) := by
  obtain ⟨_, _, _, _, _, panicking⟩ := thread
  cases control
  cases panicking with
  | none => exact advances_stepLoop alone meets
  | some payload =>
    obtain rfl := exposed (Option.some_ne_none _)
    exact advances_unwindLoop alone meets fun next caught => .of_step (.refused caught)

end Machine

end Fibers
