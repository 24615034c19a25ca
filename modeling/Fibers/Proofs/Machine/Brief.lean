import Fibers.Proofs.Machine.Arrival
import Fibers.Proofs.Strand.Termination

/-!
# What bounded fibers leave on a thread

On a thread that runs a loop, whatever goes on with a fiber goes through an executor, and an
executor that runs it at once queues its batch. So the loop of a bounded fiber begins nothing on top
of it but the notification of one observer, when its user code asks for the exit of a fiber that has
ended.

## Main results

`Machine.exists_perform_of_modest`: modest code goes on after its request, or tells one observer.
`Machine.loopStep_of_bounded`: the loop of a bounded fiber goes on with another focus or stack, or
its batch is over.
-/

namespace Fibers

variable {σ : Type}

/-- An observer that asks the interpreter to run nothing when it is called. -/
inductive Observer.Modest : Observer σ → Prop where
  | resume (type : Ty) (callback : CallbackId) : Modest (.resume type callback)
  | call {run : Exit Erased → Code σ Unit} (h : ∀ exit, (run exit).Modest) :
      Modest (.call (.ofCode run))
  | answer (type : Ty) (mailbox : MailboxId) : Modest (.answer type mailbox)

/-- What stands on top of a loop or a drain for a while only. -/
inductive Activation.Brief : Activation σ → Prop where
  | callback {code : Code σ Unit} (h : code.Modest) : Brief (.callback code)
  | posting (mailbox : MailboxId) (exit : Exit Erased) : Brief (.posting mailbox exit)
  | opening (mailbox : MailboxId) : Brief (.opening mailbox)
  | notifying (exit : Exit Erased) {observers : List (Observer σ)}
      (h : ∀ observer ∈ observers, observer.Modest) : Brief (.notifying exit observers)

/-- What one request of modest code begins on top of it. -/
inductive Notice : List (Activation σ) → Prop where
  | nobody : Notice []
  | fiber (exit : Exit Erased) (type : Ty) (callback : CallbackId) :
      Notice [.notifying exit [.resume type callback]]

theorem Notice.brief {begun : List (Activation σ)} (told : Notice begun) :
    ∀ activation ∈ begun, activation.Brief := by
  cases told with
  | nobody => exact List.forall_mem_nil _
  | fiber exit type callback =>
    have modest := List.forall_mem_singleton.mpr (Observer.Modest.resume (σ := σ) type callback)
    exact List.forall_mem_singleton.mpr (.notifying exit modest)

/-- The code that an answer leaves is not the same code again. -/
theorem Action.answered_ne {ν κ α : Type} (code : Action ν κ σ α) :
    ∀ answer, code.answered answer ≠ some code := by
  induction code using Action.induction_on_answers with
  | h code ih => exact fun answer same => ih answer code same answer same

namespace Machine

/-! ### Work that comes to a thread in a drain -/

/-- A thread that runs a loop begins nothing, and goes on queueing batches. -/
structure Settled (thread thread' : Thread σ) : Prop where
  control : thread'.control = thread.control
  running : thread'.pending.isSome

variable (heap : Heap σ) {thread : Thread σ}

theorem settled_execute (running : thread.pending.isSome) (executor : ExecutorId) (task : Task σ)
    (shared : task.isolated = false) :
    Settled thread (execute heap thread executor task).2 := by
  unfold execute
  split
  next => exact ⟨rfl, running⟩
  next =>
    obtain ⟨queue, pending⟩ := Option.isSome_iff_exists.mp running
    unfold Thread.run
    rw [shared, pending]
    exact ⟨rfl, rfl⟩
  next => exact ⟨rfl, running⟩
  next => exact ⟨rfl, running⟩
  next => exact ⟨rfl, running⟩

theorem settled_start (running : thread.pending.isSome) (id : FiberId) :
    Settled thread (start heap thread id false).2 := by
  unfold start
  split
  next => exact settled_execute _ running _ _ rfl
  next => exact ⟨rfl, running⟩

theorem settled_completeCallback (thread : Thread σ) (running : thread.pending.isSome)
    (callback : CallbackId)
    (value : Erased) : Settled thread (completeCallback heap thread callback value).2 := by
  unfold completeCallback
  split
  next => exact ⟨rfl, running⟩
  next fiber stack _ =>
    obtain ⟨queue, pending⟩ := Option.isSome_iff_exists.mp running
    simp only [resume, pending]
    exact settled_execute _ running _ _ rfl
  next => exact ⟨rfl, running⟩

theorem exists_control_observe (thread : Thread σ) (running : thread.pending.isSome)
    (id : FiberId) (type : Ty)
    (callback : CallbackId) :
    ∃ begun, Notice begun ∧
      (observe heap thread id (.resume type callback)).2.control = begun ++ thread.control ∧
      (observe heap thread id (.resume type callback)).2.pending.isSome := by
  unfold observe
  split
  next => exact ⟨[], .nobody, rfl, running⟩
  next => exact ⟨_, .fiber _ type callback, rfl, running⟩
  next => exact ⟨[], .nobody, rfl, running⟩

/-! ### Requests of modest code -/

/-- Modest code goes on after a request, and what its request begins is brief. -/
theorem exists_perform_of_modest {α : Type} (thread : Thread σ) (keep : Code σ α → Activation σ)
    {code : Code σ α} (modest : code.Modest) (going : code.isOver = false)
    (running : thread.pending.isSome) :
    ∃ rest answer begun, code.answered answer = some rest ∧ Notice begun ∧
      (perform heap thread keep code).2.control = begun ++ keep rest :: thread.control ∧
      (perform heap thread keep code).2.pending.isSome := by
  cases modest with
  | done | panic => cases going
  | get => exact ⟨_, .world heap.world, [], rfl, .nobody, rfl, running⟩
  | modify | completeLater | interrupt | report =>
    exact ⟨_, .nothing, [], rfl, .nobody, rfl, running⟩
  | poll => exact ⟨_, .exit _, [], rfl, .nobody, rfl, running⟩
  | threadName => exact ⟨_, .text _, [], rfl, .nobody, rfl, running⟩
  | clock => exact ⟨_, .number _, [], rfl, .nobody, rfl, running⟩
  | @complete callback value next =>
    have settled := settled_completeCallback heap (thread.push (keep (next ⟨⟩))) running callback
      value
    exact ⟨_, .nothing, [], rfl, .nobody, settled.control, settled.running⟩
  | @observe fiber type callback next =>
    obtain ⟨begun, told, control, running⟩ := exists_control_observe heap
      (thread.push (keep (next ⟨⟩))) running fiber type callback
    exact ⟨_, .nothing, begun, rfl, told, control, running⟩

/-! ### Loops of bounded fibers -/

/-- What one step does to a loop that has been taken off its thread. -/
inductive LoopStep (heap : Heap σ) (thread : Thread σ) (id : FiberId) (focus : Focus σ)
    (stack : List (Frame σ)) (after : Heap σ × Thread σ) : Prop where
  /-- The loop goes on with something else. -/
  | on {focus' : Focus σ} {stack' : List (Frame σ)} {begun : List (Activation σ)}
      (told : Notice begun) (changed : focus' ≠ focus ∨ stack' ≠ stack)
      (control : after.2.control = begun ++ .loop id focus' stack' :: thread.control)
      (running : after.2.pending.isSome)
  /-- The batch is over. -/
  | ended {begun : List (Activation σ)} (finished : Over id stack after.1 focus)
      (undue : ∀ executor, focus = .node (.shift executor) → heap.shouldInterrupt id = false)
      (begins : begun = [] ∨ ∃ exit, begun = [.notifying exit (heap.observers id)])
      (control : after.2.control = begun ++ thread.control) (running : after.2.pending.isSome)

variable {heap} {id : FiberId} {stack : List (Frame σ)}

theorem loopStep_of_refocus {heap' : Heap σ} {focus focus' : Focus σ} {stack' : List (Frame σ)}
    (running : thread.pending.isSome) (changed : focus' ≠ focus ∨ stack' ≠ stack) :
    LoopStep heap thread id focus stack (heap', refocus thread id focus' stack') :=
  .on .nobody changed rfl running

/-- A panic of user code becomes a cause, or an effect that fails. -/
theorem loopStep_of_caught {focus next : Focus σ} {payload : Payload}
    (caught : focus.caught payload = some next) (running : thread.pending.isSome) :
    LoopStep heap thread id focus stack (unwindLoop heap thread payload id stack focus) := by
  have changed : next ≠ focus := by cases focus <;> cases caught <;> rintro ⟨⟩
  have control : (unwindLoop heap thread payload id stack focus).2.control =
      [] ++ .loop id next stack :: thread.control := by cases focus <;> cases caught <;> rfl
  refine .on .nobody (.inl changed) control ?_
  cases focus <;> exact running

theorem loopStep_of_holds {α : Type} {keep : Code σ α → Activation σ} {code : Code σ α}
    {focus : Focus σ} (holds : (Activation.loop id focus stack).Holds keep code)
    (modest : code.Modest) (going : code.isOver = false) (running : thread.pending.isSome) :
    LoopStep heap thread id focus stack (perform heap thread keep code) := by
  obtain ⟨rest, answer, begun, answered, told, control, running⟩ :=
    exists_perform_of_modest heap thread keep modest going running
  have other : rest ≠ code := by
    rintro rfl
    exact rest.answered_ne answer answered
  cases holds with
  | thunk | raising | building | registering =>
    refine .on told (.inl fun same => ?_) control running
    cases same
    exact other rfl

theorem loopStep_of_completeFiber {fiber : FiberState σ} {focus : Focus σ} {exit : Exit Erased}
    (present : heap.fiber? id = some fiber) (alive : fiber.exit? = none)
    (running : thread.pending.isSome)
    (ends : (Activation.loop id focus stack).ends? = some (id, exit)) :
    LoopStep heap thread id focus stack (completeFiber heap thread id exit) := by
  have ended : (completeFiber heap thread id exit).1.poll id = some exit := by
    rw [← Heap.exit?_progress, progress_completeFiber heap thread id present alive exit, if_pos rfl]
    rfl
  obtain ⟨begun, fresh, control, _⟩ :=
    (grows_completeFiber heap thread present alive exit).of_willing
  cases fresh with
  | notifying exit observers =>
    have still : ∀ executor, focus ≠ .node (.shift executor) := by
      rintro executor rfl
      cases ends
    refine .ended (.completed ends ended) (fun _ moves => absurd moves (still _)) (.inr ⟨exit, rfl⟩)
      control ?_
    obtain ⟨progress, flags, environments, executor, seed⟩ := fiber
    cases progress with
    | done => cases alive
    | running observers =>
      rw [completeFiber, present]
      exact running

theorem loopStep_of_park {callback : CallbackId} {result : Unit} (running : thread.pending.isSome)
    (meets : (Activation.loop id (.registering callback (.done result)) stack).Meets heap) :
    LoopStep heap thread id (.registering callback (.done result)) stack
      (park heap thread id callback stack) := by
  unfold park
  split
  next => exact loopStep_of_refocus running (.inl (by rintro ⟨⟩))
  next =>
    refine .ended (.suspended ?_) (by rintro _ ⟨⟩) (.inl rfl) rfl running
    obtain ⟨⟨fiber, state⟩, present, own, _⟩ := meets
    obtain rfl : fiber = id := own
    rw [Heap.suspension?, (Heap.tables_report _ _ _ _).2]
    refine (heap.suspension?_setRendezvous callback callback _).trans ?_
    rw [if_pos rfl, present]
    rfl

theorem loopStep_of_interpret {current : Node σ} (running : thread.pending.isSome)
    (undue : heap.shouldInterrupt id = false) :
    LoopStep heap thread id (.node current) stack (interpret heap thread id stack current) := by
  have other {heap' : Heap σ} {focus : Focus σ} (changed : focus ≠ .node current) :
      LoopStep heap thread id (.node current) stack (heap', refocus thread id focus stack) :=
    loopStep_of_refocus running (.inl changed)
  have deeper {heap' : Heap σ} {effect : Node σ} (frame : Frame σ) :
      LoopStep heap thread id (.node current) stack
        (heap', refocus thread id (.node effect) (frame :: stack)) :=
    loopStep_of_refocus running (.inr (List.cons_ne_self frame stack))
  cases current with
  | flatMap effect continuation => exact deeper _
  | fold effect handler => exact deeper _
  | withStatus effect status => exact deeper _
  | provide effect environment => exact deeper _
  | fork effect =>
    have parent :
        (refocus thread id (.value ⟨.context, heap.nextFiber⟩) stack).pending.isSome := running
    refine .on .nobody (.inl ?_) (settled_start _ parent _).control
      (settled_start _ parent _).running
    rintro ⟨⟩
  | shift executor =>
    have settled := settled_execute ((heap.setExecutor id executor).report thread.id .trace
      fun _ => .executorShifted id (heap.executorName executor)) running executor
      ⟨⟨id, Node.unit, stack⟩, false⟩ rfl
    exact .ended .moved (fun _ _ => undue) (.inl rfl) settled.control settled.running
  | access continuation =>
    simp only [interpret]
    split <;> exact other (by rintro ⟨⟩)
  | _ => exact other (by rintro ⟨⟩)

/-- The loop of a bounded fiber goes on with another focus or stack, or its batch is over. -/
theorem loopStep_of_bounded {fiber : FiberState σ} {focus : Focus σ} (bounded : focus.Bounded)
    (present : heap.fiber? id = some fiber) (alive : fiber.exit? = none)
    (meets : (Activation.loop id focus stack).Meets heap) (running : thread.pending.isSome) :
    LoopStep heap thread id focus stack (stepLoop heap thread id stack focus) := by
  have turn := turns_stepLoop heap thread id stack focus
  generalize stepLoop heap thread id stack focus = next at turn ⊢
  cases turn with
  | interrupts => exact loopStep_of_refocus running (.inr (List.cons_ne_self _ stack))
  | interprets undue => exact loopStep_of_interpret running undue
  | delivers | handles => exact loopStep_of_refocus running (.inl (by rintro ⟨⟩))
  | succeeds => exact loopStep_of_completeFiber present alive running rfl
  | fails missing =>
    exact loopStep_of_completeFiber present alive running (by simp [Activation.ends?, missing])
  | hands ended =>
    refine loopStep_of_refocus running (.inl ?_)
    cases ended <;> rintro ⟨⟩
  | parks => exact loopStep_of_park running meets
  | panics panics => cases panics <;> exact loopStep_of_caught rfl running
  | @requests _ _ _ _ code holds going =>
    have modest : code.Modest := by
      cases bounded with
      | thunk modest | raising modest | registering _ modest =>
        cases holds
        exact modest
      | building builds =>
        cases holds
        exact builds.modest
      | node | value | cause => cases holds
    exact loopStep_of_holds holds modest going running

end Machine

end Fibers
