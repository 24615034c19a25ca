import Fibers.Proofs.Machine.Control

/-!
# Guards

User code in a loop or in a callback is guarded against its own panics. The interpreter is not, so a
panic of its own takes the activations with it, down to the next guard.

## Main results

`Machine.step_of_caught`: what a guard in a loop makes of a panic. `Machine.escaping_step`: the only
way in which a panic gets past the guards. `Machine.tame_step`: if no executor refuses a task, there
is no loop on a thread that panics.
-/

namespace Fibers

variable {σ : Type}

/-- A panic goes through the interpreter itself. -/
def Thread.Escaping (thread : Thread σ) : Prop :=
  thread.panicking.isSome ∧
    ∃ activation rest, thread.control = activation :: rest ∧ activation.interprets = true

theorem Thread.not_escaping_of_calm {thread : Thread σ} (calm : thread.panicking = none) :
    ¬thread.Escaping := by
  rintro ⟨panicking, _⟩
  rw [calm] at panicking
  cases panicking

theorem Thread.not_escaping_of_programs {thread : Thread σ} {codes : List (Code σ Unit)}
    (control : thread.control = codes.map .program) : ¬thread.Escaping := by
  rintro ⟨_, activation, rest, top, interprets⟩
  cases codes with
  | nil => cases control.symm.trans top
  | cons code codes =>
    cases control.symm.trans top
    cases interprets

/-- If a thread panics, what is on top of it is code that nobody guards, or a callback. -/
def Thread.Tame (thread : Thread σ) : Prop :=
  thread.panicking.isSome → ∀ activation rest, thread.control = activation :: rest →
    ∃ code, activation = .program code ∨ activation = .callback code

theorem Thread.tame_of_calm {thread : Thread σ} (calm : thread.panicking = none) : thread.Tame := by
  intro panicking
  rw [calm] at panicking
  cases panicking

/-- What a loop goes on with when its user code panics: a defect, raised at once or by the next
effect. -/
def Focus.caught? (payload : Payload) : Focus σ → Option (Focus σ)
  | .thunk _ | .raising _ | .registering _ _ => some (.cause (.ofPayload payload))
  | .building _ => some (.node (.failNow (.ofPayload payload)))
  | .node _ | .value _ | .cause _ => none

/-- A panic reaches what is on top of a thread: it comes from above, or the code there has raised
it. -/
inductive Thread.Panics (thread : Thread σ) (activation : Activation σ) (payload : Payload) :
    Prop where
  | above (panicking : thread.panicking = some payload)
  | own {α : Type} {keep : Code σ α → Activation σ} (calm : thread.panicking = none)
      (holds : activation.Holds keep (.panic payload))

namespace Machine

variable {heap : Heap σ} {thread thread' : Thread σ} {activation : Activation σ}
  {rest : List (Activation σ)} {payload : Payload}

/-! ### What guards do -/

theorem unwindLoop_of_caught {id : FiberId} {focus next : Focus σ} {stack : List (Frame σ)}
    (caught : focus.caught? payload = some next)
    (meets : (Activation.loop id focus stack).Meets heap) :
    (unwindLoop heap thread payload id stack focus).2 =
        refocus { thread with panicking := none } id next stack ∧
      ∀ other, (unwindLoop heap thread payload id stack focus).1.places other =
        heap.places other := by
  cases focus with
  | thunk | raising | building =>
    cases caught
    exact ⟨rfl, heap.places_noteDefect thread.id payload⟩
  | registering callback code =>
    cases caught
    refine ⟨rfl, fun other => ?_⟩
    -- The suspension holds no frames yet, so nothing is lost when it is abandoned.
    obtain ⟨suspension, present, _, meeting⟩ := meets
    have reported : (heap.noteDefect thread.id payload).suspension? callback = some suspension := by
      rw [Heap.noteDefect, Heap.suspension?, (Heap.tables_report _ _ _ _).2]
      exact present
    obtain ⟨others, before, after⟩ := Heap.places_setRendezvous reported .abandoned other
    have empty : suspension.places other callback.index = 0 :=
      Suspension.places_of_not_parked other callback.index fun stack parked => by
        rw [parked] at meeting
        cases meeting
    rw [empty] at before
    exact after.trans (before.symm.trans (heap.places_noteDefect thread.id payload other))
  | node | value | cause => cases caught

/-- The frames of a loop, and all that is under it, survive a panic of its user code. -/
theorem step_of_caught {id : FiberId} {focus next : Focus σ} {stack : List (Frame σ)}
    (control : thread.control = .loop id focus stack :: rest)
    (panics : thread.Panics (.loop id focus stack) payload)
    (caught : focus.caught? payload = some next)
    (meets : (Activation.loop id focus stack).Meets heap) :
    (step heap thread).2 =
        { thread with control := .loop id next stack :: rest, panicking := none } ∧
      ∀ other, (step heap thread).1.places other = heap.places other := by
  have stepped : step heap thread =
      unwindLoop heap { thread with control := rest } payload id stack focus := by
    cases panics with
    | above panicking => exact step_of_panicking heap panicking control
    | own calm holds =>
      rw [step_of_next? heap calm control]
      cases holds <;> rfl
  rw [stepped]
  exact unwindLoop_of_caught caught meets

/-- A callback that panics is dropped, as soon as the panic has been raised. -/
theorem step_of_callback (heap : Heap σ) {code : Code σ Unit}
    (control : thread.control = .callback code :: rest)
    (panics : thread.Panics (.callback code) payload) :
    ((step heap thread).2 = { thread with control := rest, panicking := none } ∨
        thread.panicking = none ∧
          (step heap thread).2 = { thread with panicking := some payload }) ∧
      ∀ other, (step heap thread).1.places other = heap.places other := by
  cases panics with
  | above panicking =>
    rw [step_of_panicking heap panicking control]
    exact ⟨.inl rfl, heap.places_noteDefect thread.id payload⟩
  | own calm holds =>
    rw [step_of_next? heap calm control]
    cases holds
    refine ⟨.inr ⟨calm, ?_⟩, fun _ => rfl⟩
    simp only [advance, perform, Thread.push, Thread.raise, ← control]

/-! ### What gets past them -/

theorem step_of_interprets (heap : Heap σ) (panicking : thread.panicking = some payload)
    (control : thread.control = activation :: rest) (interprets : activation.interprets = true) :
    (step heap thread).2.control = rest ∧ (step heap thread).2.panicking = thread.panicking := by
  rw [step_of_panicking heap panicking control]
  cases activation with
  | loop id focus stack =>
    cases focus with
    | node | value | cause => exact ⟨rfl, rfl⟩
    | thunk | raising | building | registering => cases interprets
  | notifying | draining => exact ⟨rfl, rfl⟩
  | program | callback | posting | opening => cases interprets

/-- A step that is not panicking ends in a panic of the interpreter exactly if an executor refuses
what it is handed. -/
theorem Advanced.escaping_iff (h : Advanced heap thread activation thread')
    (nested : Nested (activation :: thread.control)) :
    thread'.Escaping ↔ ∃ id payload, refused? heap thread activation = some (id, payload) := by
  cases h with
  | calm left fresh control calm willing =>
    refine iff_of_false ?_ ?_
    · rintro ⟨panicking, _⟩
      rw [calm] at panicking
      cases panicking
    · rintro ⟨id, payload, refused⟩
      cases willing.symm.trans refused
  | code left code _ willing =>
    refine iff_of_false ?_ ?_
    · rintro ⟨_, top, rest, control, interprets⟩
      cases control
      cases code.not_interprets.symm.trans interprets
    · rintro ⟨id, payload, refused⟩
      cases willing.symm.trans refused
  | @refused own id payload refused left interprets bare _ =>
    refine iff_of_true ⟨rfl, ?_⟩ ⟨id, payload, refused⟩
    cases own with
    | cons top own => exact ⟨top, _, rfl, interprets top List.mem_cons_self⟩
    | nil =>
      -- The loop is gone, and the drain that it ran in is next.
      obtain ⟨id, focus, stack, rfl⟩ := bare rfl
      obtain ⟨outer, below, control, _⟩ := nested.of_loop
      exact ⟨.draining outer, below, control, rfl⟩

/-- A panic gets past the guards only if an executor refuses what the interpreter hands to it. -/
theorem escaping_step (steady : Steady heap thread) (nested : Nested thread.control)
    (escaping : (step heap thread).2.Escaping) :
    thread.Escaping ∨ thread.panicking = none ∧ ∃ activation rest id payload,
      thread.control = activation :: rest ∧
        refused? heap { thread with control := rest } activation = some (id, payload) := by
  cases control : thread.control with
  | nil =>
    obtain ⟨_, activation, rest, top, _⟩ := escaping
    cases (control_step_of_idle heap control).symm.trans top
  | cons activation rest =>
    cases panicking : thread.panicking with
    | none =>
      have advanced := advanced_step steady panicking control
      obtain ⟨id, payload, refused⟩ := (advanced.escaping_iff (control ▸ nested)).mp escaping
      exact .inr ⟨rfl, activation, rest, id, payload, rfl, refused⟩
    | some payload =>
      -- A panic that is on its way already either goes on or meets a guard.
      by_cases interprets : activation.interprets = true
      · exact .inl ⟨by rw [panicking]; rfl, activation, rest, control, interprets⟩
      · rw [step_of_panicking heap panicking control] at escaping
        cases activation with
        | program code =>
          rw [control] at nested
          obtain ⟨codes, under⟩ := nested.of_program
          exact absurd escaping (Thread.not_escaping_of_programs under)
        | callback | posting | opening =>
          exact absurd escaping (Thread.not_escaping_of_calm rfl)
        | loop id focus stack =>
          cases focus with
          | thunk | raising | building | registering =>
            exact absurd escaping (Thread.not_escaping_of_calm rfl)
          | node | value | cause => exact absurd rfl interprets
        | notifying | draining => exact absurd rfl interprets

section Willing

variable (willing : ∀ executor, heap.refusal? executor = none)

include willing

theorem calm_execute (calm : thread.panicking = none) (executor : ExecutorId) (task : Task σ) :
    (execute heap thread executor task).2.panicking = none := by
  have grows := grows_execute heap thread executor task
  rw [willing] at grows
  obtain ⟨_, _, _, same⟩ := grows.of_willing
  exact same.trans calm

theorem calm_newRoot (calm : thread.panicking = none) (executor : ExecutorId) (root : Node σ)
    (observers : List (Observer σ)) :
    (start (newRoot heap executor root observers) thread heap.nextFiber true).2.panicking =
      none := by
  have grows := grows_newRoot heap thread executor root observers
  rw [willing] at grows
  obtain ⟨_, _, _, same⟩ := grows.of_willing
  exact same.trans calm

theorem calm_completeCallback (calm : thread.panicking = none) (callback : CallbackId)
    (value : Erased) : (completeCallback heap thread callback value).2.panicking = none := by
  have grows := grows_completeCallback heap thread callback value
  have nobody : refusedResumption? heap thread callback = none :=
    Option.bind_eq_none_iff.mpr fun target _ => willing target.2
  rw [nobody] at grows
  obtain ⟨_, _, _, same⟩ := grows.of_willing
  exact same.trans calm

/-- A request does not end in a panic. -/
theorem calm_perform {α : Type} (keep : Code σ α → Activation σ) {code : Code σ α}
    (sane : ∀ payload, code ≠ .panic payload) (calm : thread.panicking = none) :
    (perform heap thread keep code).2.panicking = none := by
  cases code with
  | panic payload => exact absurd rfl (sane payload)
  | complete callback value next =>
    have pushed : (thread.push (keep (next ⟨⟩))).panicking = none := calm
    exact calm_completeCallback willing pushed callback value
  | observe fiber type callback next =>
    obtain ⟨_, _, _, same⟩ := (grows_observe heap (thread.push (keep (next ⟨⟩))) fiber
      (.resume type callback)).of_willing
    exact same.trans calm
  | launch executor root next =>
    have pushed : (thread.push (keep (next heap.nextFiber))).panicking = none := calm
    exact calm_newRoot willing pushed executor root []
  | launchWith executor root callback next =>
    have pushed : (thread.push (keep (next heap.nextFiber))).panicking = none := calm
    exact calm_newRoot willing pushed executor root [.call callback]
  | submit executor root type next =>
    have grows := grows_newRoot heap.addMailbox (thread.push (keep (next heap.nextMailbox)))
      executor root [.answer type heap.nextMailbox]
    rw [show heap.addMailbox.refusal? executor = none from willing executor] at grows
    obtain ⟨_, _, _, same⟩ := grows.of_willing
    exact same.trans calm
  | wait mailbox deadline next =>
    simp only [perform]
    split
    · exact calm
    · split <;> exact calm
  | runTask executor newest next =>
    simp only [perform]
    split
    next task rest _ =>
      obtain ⟨_, _, _, same⟩ := ((thread.push (keep (next true))).grows_run task).of_willing
      exact same.trans calm
    next => exact calm
  | _ => exact calm

theorem calm_interpret (calm : thread.panicking = none) (id : FiberId) (stack : List (Frame σ))
    (current : Node σ) : (interpret heap thread id stack current).2.panicking = none := by
  cases current with
  | fork effect =>
    obtain ⟨event, reported, child, rfl, next, seed, _, _, forked⟩ :=
      exists_fork_eq heap thread id effect stack
    have present := (heap.report thread.id .debug event).fiber?_addFiber child
    have grows := grows_start _ (refocus thread id (.value ⟨.context,
      (heap.report thread.id .debug event).nextFiber⟩) stack) present seed false
    have nobody : ((heap.report thread.id .debug event).addFiber child).refusal? child.executor =
        none := (Heap.refusal?_of_executors (heap.executors_report _ _ event) _).trans (willing _)
    rw [nobody] at grows
    obtain ⟨_, _, _, same⟩ := grows.of_willing
    rw [interpret, forked]
    exact same.trans calm
  | shift executor =>
    refine calm_execute (fun other => ?_) calm executor _
    exact (Heap.refusal?_of_executors (Heap.executors_report _ _ _ _) other).trans (willing other)
  | access continuation =>
    rw [interpret]
    split <;> exact calm
  | _ => exact calm

/-- The interpreter does not panic. -/
theorem calm_stepLoop (calm : thread.panicking = none) {id : FiberId} {fiber : FiberState σ}
    (present : heap.fiber? id = some fiber) (running : fiber.exit? = none)
    (stack : List (Frame σ)) (focus : Focus σ) :
    (stepLoop heap thread id stack focus).2.panicking = none := by
  have ends (exit : Exit Erased) : (completeFiber heap thread id exit).2.panicking = none := by
    obtain ⟨_, _, _, same⟩ := (grows_completeFiber heap thread present running exit).of_willing
    exact same.trans calm
  have turn := turns_stepLoop heap thread id stack focus
  generalize stepLoop heap thread id stack focus = next at turn ⊢
  cases turn with
  | interprets => exact calm_interpret willing calm id stack _
  | succeeds | fails => exact ends _
  | interrupts | delivers | handles | hands => exact calm
  | parks =>
    unfold park
    split <;> exact calm
  | panics panics => cases panics <;> rfl
  | requests holds going =>
    refine calm_perform willing _ (fun payload raised => ?_) calm
    subst raised
    cases going

/-- If no executor refuses a task, only code that nobody guards, or a callback, is on top of a
thread that panics. -/
theorem tame_step (steady : Steady heap thread) (nested : Nested thread.control)
    (tame : thread.Tame) : (step heap thread).2.Tame := by
  cases control : thread.control with
  | nil =>
    rintro - activation rest top
    cases (control_step_of_idle heap control).symm.trans top
  | cons activation rest =>
    cases panicking : thread.panicking with
    | some payload =>
      rw [step_of_panicking heap panicking control]
      -- A panic that is under way has got as far as code that nobody guards, or a callback.
      obtain ⟨code, rfl | rfl⟩ := tame (by rw [panicking]; rfl) activation rest control
      · obtain ⟨codes, under⟩ := (control ▸ nested : Nested (_ :: rest)).of_program
        rintro - top below whole
        cases codes with
        | nil => cases under.symm.trans whole
        | cons first codes =>
          cases under.symm.trans whole
          exact ⟨first, .inl rfl⟩
      · exact Thread.tame_of_calm rfl
    | none =>
      have calm' : { thread with control := rest }.panicking = none := panicking
      rw [step_of_next? heap panicking control]
      cases activation with
      | program code =>
        cases code with
        | panic payload =>
          -- The panic stays on top of the code that has raised it.
          rintro - top below whole
          cases whole
          exact ⟨_, .inl rfl⟩
        | done => exact Thread.tame_of_calm calm'
        | _ =>
          exact Thread.tame_of_calm (calm_perform willing _ (fun _ told => by cases told) calm')
      | callback code =>
        cases code with
        | panic payload =>
          rintro - top below whole
          cases whole
          exact ⟨_, .inr rfl⟩
        | done => exact Thread.tame_of_calm calm'
        | _ =>
          exact Thread.tame_of_calm (calm_perform willing _ (fun _ told => by cases told) calm')
      | loop id focus stack =>
        -- A loop catches the panics of its code, and a steady one does not panic itself.
        obtain ⟨fiber, present, running⟩ :=
          steady id focus stack (Thread.next?_eq_some_iff.mpr ⟨panicking, rest, control⟩)
        exact Thread.tame_of_calm (calm_stepLoop willing calm' present running stack focus)
      | notifying exit observers =>
        cases observers with
        | nil => exact Thread.tame_of_calm calm'
        | cons observer others =>
          have grows := grows_notify heap
            ({ thread with control := rest }.push (.notifying exit others)) exit observer
          -- Telling an observer panics only if an executor refuses the task that it begins.
          rw [Option.bind_eq_none_iff.mpr fun target _ => willing target.2] at grows
          obtain ⟨_, _, _, same⟩ := grows.of_willing
          exact Thread.tame_of_calm (same.trans calm')
      | posting | opening => exact Thread.tame_of_calm calm'
      | draining outer =>
        simp only [advance]
        split <;> exact Thread.tame_of_calm calm'

end Willing

end Machine

end Fibers
