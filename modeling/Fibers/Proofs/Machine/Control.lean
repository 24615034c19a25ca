import Fibers.Proofs.Machine.Progress

/-!
# Control stacks

A step of a thread takes its innermost activation off, puts what is left of it back, and may begin
others on top. What is further down stays as it is.

## Main results

`Machine.advanced_advance`: what a step leaves on a thread, and when it ends in a panic. Only an
executor that refuses a task makes the interpreter itself panic (`Machine.refused?`). `Nested` is
how activations stand above each other, whatever the threads do.

## Proof strategy

`Thread.Grows` says what an operation begins on a thread. It has one lemma for each operation.
-/

namespace Fibers

variable {σ : Type}

/-! ### What an operation begins -/

/-- The panic with which an executor meets every task. -/
def Heap.refusal? (heap : Heap σ) (executor : ExecutorId) : Option Payload :=
  match heap.executor? executor with
  | some { discipline := .refuse payload, .. } => some payload
  | _ => none

theorem Heap.refusal?_of_executors {heap heap' : Heap σ} (same : heap'.executors = heap.executors)
    (executor : ExecutorId) : heap'.refusal? executor = heap.refusal? executor := by
  rw [refusal?, refusal?, executor?, executor?, same]

@[simp] theorem Heap.executors_report (heap : Heap σ) (thread : ThreadId) (severity : Severity)
    (event : Unit → Event) : (heap.report thread severity event).executors = heap.executors := by
  unfold Heap.report
  split <;> rfl

/-- What one operation may begin on a thread, innermost first. If it announces an exit, it begins to
notify the observers, and nothing else. -/
inductive Begun : Option (Exit Erased × List (Observer σ)) → List (Activation σ) → Prop where
  | nothing : Begun none []
  | loop (id : FiberId) (current : Node σ) (stack : List (Frame σ))
      (outer : Option (Queue (Batch σ))) :
      Begun none [.loop id (.node current) stack, .draining outer]
  | notifying (exit : Exit Erased) (observers : List (Observer σ)) :
      Begun (some (exit, observers)) [.notifying exit observers]
  | callback (code : Code σ Unit) : Begun none [.callback code]
  | posting (mailbox : MailboxId) (exit : Exit Erased) : Begun none [.posting mailbox exit]

/-- An operation begins something on a thread, unless an executor refuses a task. -/
inductive Thread.Grows (refusal : Option Payload)
    (announced : Option (Exit Erased × List (Observer σ))) (thread : Thread σ) :
    Thread σ → Prop where
  | began {thread' : Thread σ} {begun : List (Activation σ)} (fresh : Begun announced begun)
      (control : thread'.control = begun ++ thread.control)
      (calm : thread'.panicking = thread.panicking) (willing : refusal = none) :
      Grows refusal announced thread thread'
  | refused {payload : Payload} (refused : refusal = some payload) (silent : announced = none) :
      Grows refusal announced thread (thread.raise payload)

variable {announced : Option (Exit Erased × List (Observer σ))}

/-- Observers are only notified of what is announced. -/
theorem Begun.of_notifying {begun : List (Activation σ)} (h : Begun announced begun)
    {exit : Exit Erased} {observers : List (Observer σ)} (mem : .notifying exit observers ∈ begun) :
    announced = some (exit, observers) ∧ begun = [.notifying exit observers] := by
  cases h with
  | notifying =>
    cases List.mem_singleton.mp mem
    exact ⟨rfl, rfl⟩
  | nothing | loop | callback | posting => simp at mem

theorem Thread.Grows.control {refusal : Option Payload} {thread thread' : Thread σ}
    (h : thread.Grows refusal announced thread') :
    ∃ begun, Begun announced begun ∧ thread'.control = begun ++ thread.control := by
  cases h with
  | began fresh control => exact ⟨_, fresh, control⟩
  | refused _ silent => exact ⟨[], silent ▸ .nothing, rfl⟩

theorem Thread.Grows.refl (thread : Thread σ) : thread.Grows none none thread :=
  .began .nothing rfl rfl rfl

theorem Thread.Grows.of_willing {thread thread' : Thread σ}
    (h : thread.Grows none announced thread') :
    ∃ begun, Begun announced begun ∧ thread'.control = begun ++ thread.control ∧
      thread'.panicking = thread.panicking := by
  cases h with
  | began fresh control calm => exact ⟨_, fresh, control, calm⟩
  | refused impossible _ => cases impossible

theorem Thread.grows_run (thread : Thread σ) (task : Task σ) :
    thread.Grows none none (thread.run task) := by
  unfold Thread.run
  split
  next => exact .began .nothing rfl rfl rfl
  next => exact .began (.loop _ _ _ _) rfl rfl rfl

namespace Machine

variable (heap : Heap σ) (thread : Thread σ)

theorem grows_execute (executor : ExecutorId) (task : Task σ) :
    thread.Grows (heap.refusal? executor) none (execute heap thread executor task).2 := by
  unfold execute Heap.refusal?
  cases heap.executor? executor with
  | none => exact .refl thread
  | some state =>
    obtain ⟨name, discipline, waiting⟩ := state
    cases discipline with
    | inline => exact thread.grows_run task
    | hold | discard => exact .refl thread
    | refuse payload => exact .refused rfl rfl

theorem grows_start {id : FiberId} {fiber : FiberState σ} {effect : Node σ}
    (present : heap.fiber? id = some fiber) (seed : fiber.seed = some effect) (root : Bool) :
    thread.Grows (heap.refusal? fiber.executor) none (start heap thread id root).2 := by
  obtain ⟨progress, flags, environments, executor, _⟩ := fiber
  cases seed
  rw [start, present]
  have same : ∀ taken : Heap σ, taken.executors = heap.executors →
      (taken.report thread.id .debug fun _ =>
        .fiberStarted id (heap.executorName executor)).refusal? executor =
        heap.refusal? executor := fun taken same =>
    Heap.refusal?_of_executors ((taken.executors_report _ _ _).trans same) executor
  dsimp only
  rw [← same (heap.updateFiber id fun fiber => { fiber with seed := none }) rfl]
  exact grows_execute _ _ _ _

/-- Where a fiber that waits for a callback goes on: at its executor, if a loop is running. -/
def resumption? (callback : CallbackId) : Option (FiberId × ExecutorId) :=
  match heap.suspension? callback with
  | some { fiber, state := .parked _ } =>
    if thread.pending.isSome then some (fiber, heap.executorOf fiber) else none
  | _ => none

/-- The panic of the executor at which a fiber was to go on. -/
def refusedResumption? (callback : CallbackId) : Option Payload :=
  (resumption? heap thread callback).bind fun target => heap.refusal? target.2

theorem grows_resume (id : FiberId) (value : Erased) (stack : List (Frame σ)) :
    thread.Grows (if thread.pending.isSome then heap.refusal? (heap.executorOf id) else none) none
      (resume heap thread id value stack).2 := by
  unfold resume
  cases thread.pending with
  | none => exact thread.grows_run _
  | some queue =>
    have same : (heap.report thread.id .trace fun _ =>
        .fiberResumed id stack.length).executorOf id = heap.executorOf id := by
      rw [Heap.executorOf, Heap.executorOf, Heap.fiber?, Heap.fiber?,
        (Heap.tables_report _ _ _ _).1]
    simp only [same, Option.isSome_some, if_true]
    -- The report in between changes no executor.
    rw [← Heap.refusal?_of_executors (heap.executors_report thread.id .trace fun _ =>
      .fiberResumed id stack.length)]
    exact grows_execute _ _ _ _

theorem grows_completeCallback (callback : CallbackId) (value : Erased) :
    thread.Grows (refusedResumption? heap thread callback) none
      (completeCallback heap thread callback value).2 := by
  unfold completeCallback refusedResumption? resumption?
  cases known : heap.suspension? callback with
  | none => exact .refl thread
  | some suspension =>
    obtain ⟨fiber, state⟩ := suspension
    cases state with
    | registering | completed | resumed | abandoned => exact .refl thread
    | parked stack =>
      have grows := grows_resume (heap.setRendezvous callback .resumed) thread fiber value stack
      have same : (heap.setRendezvous callback .resumed).refusal?
          ((heap.setRendezvous callback .resumed).executorOf fiber) =
          heap.refusal? (heap.executorOf fiber) := rfl
      rw [same] at grows
      cases pending : thread.pending <;> simpa [pending] using grows

theorem grows_observe (id : FiberId) (observer : Observer σ) :
    thread.Grows none
      (heap.answered? (if (heap.fiber? id).isSome then some (id, observer) else none))
      (observe heap thread id observer).2 := by
  unfold observe Heap.answered?
  cases present : heap.fiber? id with
  | none => exact .refl thread
  | some fiber =>
    obtain ⟨progress, flags, environments, executor, seed⟩ := fiber
    simp only [Option.isSome_some, if_true, Option.bind_some, Heap.poll, present]
    cases progress with
    | running => exact .refl thread
    | done exit => exact .began (.notifying exit [observer]) rfl rfl rfl

/-- Where a fiber that observes an exit goes on. -/
def notified? : Observer σ → Option (FiberId × ExecutorId)
  | .resume _ callback => resumption? heap thread callback
  | _ => none

theorem grows_notify (exit : Exit Erased) (observer : Observer σ) :
    thread.Grows ((notified? heap thread observer).bind fun target => heap.refusal? target.2) none
      (notify heap thread exit observer).2 := by
  cases observer with
  | resume type callback => exact grows_completeCallback heap thread callback _
  | call callback =>
    obtain ⟨run⟩ := callback
    exact .began (.callback (run exit)) rfl rfl rfl
  | answer type mailbox => exact .began (.posting mailbox _) rfl rfl rfl

theorem grows_completeFiber {id : FiberId} {fiber : FiberState σ}
    (present : heap.fiber? id = some fiber) (running : fiber.exit? = none) (exit : Exit Erased) :
    thread.Grows none (some (exit, heap.observers id)) (completeFiber heap thread id exit).2 := by
  obtain ⟨progress, flags, environments, executor, seed⟩ := fiber
  cases progress with
  | done => cases running
  | running observers =>
    rw [completeFiber, Heap.observers, Heap.progress, present]
    exact .began (.notifying exit observers) rfl rfl rfl

theorem grows_newRoot (executor : ExecutorId) (effect : Node σ) (observers : List (Observer σ)) :
    thread.Grows (heap.refusal? executor) none
      (start (newRoot heap executor effect observers) thread heap.nextFiber true).2 := by
  have present : (newRoot heap executor effect observers).fiber? heap.nextFiber =
      some
        { progress := .running observers, environments := [], executor, seed := some effect } :=
    heap.fiber?_addFiber _
  exact grows_start (newRoot heap executor effect observers) thread present rfl true

/-- A request of user code leaves its activation under what it begins. -/
theorem grows_perform {α : Type} (keep : Code σ α → Activation σ) (code : Code σ α) :
    ∃ refusal rest, (thread.push (keep rest)).Grows refusal
      (heap.answered? (code.registered? heap)) (perform heap thread keep code).2 := by
  cases code with
  | done result => exact ⟨_, _, .refl _⟩
  | panic payload => exact ⟨_, _, .refused rfl rfl⟩
  | complete callback value next => exact ⟨_, _, grows_completeCallback heap _ callback value⟩
  | observe fiber type callback next => exact ⟨_, _, grows_observe heap _ fiber _⟩
  | launch executor root next =>
    exact ⟨_, _, grows_newRoot heap (thread.push (keep (next heap.nextFiber))) executor root []⟩
  | launchWith executor root callback next =>
    have grows := grows_newRoot heap (thread.push (keep (next heap.nextFiber))) executor root
      [.call callback]
    refine ⟨heap.refusal? executor, next heap.nextFiber, ?_⟩
    -- The observer comes with the fiber, which has not ended, so nobody is told anything yet.
    rw [Action.registered?, heap.answered?_nextFiber]
    exact grows
  | submit executor root type next =>
    have grows := grows_newRoot heap.addMailbox (thread.push (keep (next heap.nextMailbox)))
      executor root [.answer type heap.nextMailbox]
    refine ⟨heap.addMailbox.refusal? executor, next heap.nextMailbox, ?_⟩
    rw [Action.registered?, heap.answered?_nextFiber]
    exact grows
  | wait mailbox deadline next =>
    simp only [perform]
    split
    · exact ⟨_, _, .refl _⟩
    · split <;> exact ⟨_, _, .refl _⟩
  | runTask executor newest next =>
    simp only [perform]
    split
    next task rest _ => exact ⟨_, _, (thread.push (keep (next true))).grows_run task⟩
    next => exact ⟨_, _, .refl _⟩
  | _ => exact ⟨_, _, .refl _⟩

/-! ### What a step leaves -/

end Machine

/-- An activation runs user code. -/
def Activation.IsCode (activation : Activation σ) : Prop :=
  ∃ (α : Type) (keep : Code σ α → Activation σ) (code : Code σ α), activation.Holds keep code

/-- An activation is the work of the interpreter itself, so that nothing guards it against a panic.
-/
def Activation.interprets : Activation σ → Bool
  | .loop _ (.node _) _ | .loop _ (.value _) _ | .loop _ (.cause _) _ => true
  | .notifying _ _ | .draining _ => true
  | _ => false

theorem Activation.IsCode.not_interprets {activation : Activation σ} (h : activation.IsCode) :
    activation.interprets = false := by
  obtain ⟨α, keep, code, holds⟩ := h
  cases holds <;> rfl

/-- What is left of an activation after a step of its own. -/
inductive Activation.Leaves : Activation σ → List (Activation σ) → Prop where
  | gone (activation : Activation σ) : Leaves activation []
  | program (code rest : Code σ Unit) : Leaves (.program code) [.program rest]
  | callback (code rest : Code σ Unit) : Leaves (.callback code) [.callback rest]
  | opening (mailbox : MailboxId) (exit : Exit Erased) :
      Leaves (.posting mailbox exit) [.opening mailbox]
  | loop (id : FiberId) (focus focus' : Focus σ) (stack stack' : List (Frame σ)) :
      Leaves (.loop id focus stack) [.loop id focus' stack']
  | notifying (exit : Exit Erased) (observer : Observer σ) (rest : List (Observer σ)) :
      Leaves (.notifying exit (observer :: rest)) [.notifying exit rest]

/-- User code stays where it is while it makes its requests. -/
theorem Activation.Holds.leaves {activation : Activation σ} {α : Type}
    {keep : Code σ α → Activation σ} {code : Code σ α} (holds : activation.Holds keep code)
    (rest : Code σ α) : activation.Leaves [keep rest] := by
  cases holds with
  | program => exact .program _ _
  | callback => exact .callback _ _
  | thunk | raising | building | registering => exact .loop _ _ _ _ _

theorem Activation.Holds.isCode {activation : Activation σ} {α : Type}
    {keep : Code σ α → Activation σ} {code : Code σ α} (holds : activation.Holds keep code)
    (rest : Code σ α) : (keep rest).IsCode := by
  cases holds with
  | program => exact ⟨_, _, _, .program _⟩
  | callback => exact ⟨_, _, _, .callback _⟩
  | thunk => exact ⟨_, _, _, .thunk _ _ _⟩
  | raising => exact ⟨_, _, _, .raising _ _ _⟩
  | building => exact ⟨_, _, _, .building _ _ _⟩
  | registering => exact ⟨_, _, _, .registering _ _ _ _⟩

/-- Whoever is still to be notified was to be notified before, after the first one. -/
theorem Activation.Leaves.of_notifying {activation : Activation σ} {own : List (Activation σ)}
    (left : activation.Leaves own) {exit : Exit Erased} {observers : List (Observer σ)}
    (mem : .notifying exit observers ∈ own) :
    ∃ observer, activation = .notifying exit (observer :: observers) ∧
      own = [.notifying exit observers] := by
  cases left with
  | notifying _ observer =>
    cases List.mem_singleton.mp mem
    exact ⟨observer, rfl, rfl⟩
  | gone | program | callback | opening | loop => simp at mem

namespace Machine

/-- The fiber that the interpreter hands to an executor in a step, and that executor. -/
def handed? (heap : Heap σ) (thread : Thread σ) : Activation σ → Option (FiberId × ExecutorId)
  | .loop id (.node current) _ =>
    if heap.shouldInterrupt id then none
    else match current with
      | .shift executor => some (id, executor)
      | .fork _ => some (heap.nextFiber, heap.executorOf id)
      | _ => none
  | .notifying _ (observer :: _) => notified? heap thread observer
  | _ => none

/-- The fiber that an executor refuses to take from the interpreter in a step, and its panic. -/
def refused? (heap : Heap σ) (thread : Thread σ) (activation : Activation σ) :
    Option (FiberId × Payload) :=
  (handed? heap thread activation).bind fun (id, executor) =>
    (heap.refusal? executor).map fun payload => (id, payload)

/-- What a step leaves on a thread from which it has taken an activation. -/
inductive Advanced (heap : Heap σ) (thread : Thread σ) (activation : Activation σ) :
    Thread σ → Prop where
  | calm {thread' : Thread σ} {own begun : List (Activation σ)} (left : activation.Leaves own)
      (fresh : Begun (heap.announced? activation) begun)
      (control : thread'.control = begun ++ (own ++ thread.control))
      (calm : thread'.panicking = none) (willing : refused? heap thread activation = none) :
      Advanced heap thread activation thread'
  /-- User code panics by itself, or in its last request. -/
  | code {own : Activation σ} {payload : Payload} (left : activation.Leaves [own])
      (code : own.IsCode) (silent : heap.announced? activation = none)
      (willing : refused? heap thread activation = none) :
      Advanced heap thread activation ((thread.push own).raise payload)
  | refused {own : List (Activation σ)} {id : FiberId} {payload : Payload}
      (refused : refused? heap thread activation = some (id, payload))
      (left : activation.Leaves own) (interprets : ∀ other ∈ own, other.interprets = true)
      (bare : own = [] → ∃ id focus stack, activation = .loop id focus stack)
      (silent : heap.announced? activation = none) :
      Advanced heap thread activation
        { thread with control := own ++ thread.control, panicking := some payload }

variable {heap : Heap σ} {thread : Thread σ} {activation : Activation σ}

theorem advanced_of_grows {own : Activation σ} {refusal : Option Payload} {thread' : Thread σ}
    (calm : thread.panicking = none) (left : activation.Leaves [own]) (code : own.IsCode)
    (willing : refused? heap thread activation = none)
    (grows : (thread.push own).Grows refusal (heap.announced? activation) thread') :
    Advanced heap thread activation thread' := by
  cases grows with
  | began fresh control same _ => exact .calm left fresh control (same.trans calm) willing
  | refused _ silent => exact .code left code silent willing

theorem advanced_perform {α : Type} {keep : Code σ α → Activation σ} {code : Code σ α}
    (calm : thread.panicking = none) (holds : activation.Holds keep code) :
    Advanced heap thread activation (perform heap thread keep code).2 := by
  obtain ⟨refusal, rest, grows⟩ := grows_perform heap thread keep code
  have willing : refused? heap thread activation = none := by cases holds <;> rfl
  have announced : heap.announced? activation = heap.answered? (code.registered? heap) := by
    rw [Heap.announced?, holds.ends?, holds.registered?]
  exact advanced_of_grows calm (holds.leaves rest) (holds.isCode rest) willing (announced ▸ grows)

theorem advanced_refocus {id : FiberId} {focus focus' : Focus σ} {stack stack' : List (Frame σ)}
    (calm : thread.panicking = none) (willing : refused? heap thread (.loop id focus stack) = none)
    (silent : heap.announced? (.loop id focus stack) = none) :
    Advanced heap thread (.loop id focus stack) (refocus thread id focus' stack') := by
  have fresh : Begun (heap.announced? (.loop id focus stack)) [] := silent ▸ .nothing
  exact .calm (.loop id focus focus' stack stack') fresh rfl calm willing

/-- What the interpreter hands to an executor, if the executor of the operation is that one. -/
theorem advanced_of_handed {own : List (Activation σ)} {id : FiberId} {executor : ExecutorId}
    {refusal : Option Payload} {thread' : Thread σ} (calm : thread.panicking = none)
    (left : activation.Leaves own) (interprets : ∀ other ∈ own, other.interprets = true)
    (bare : own = [] → ∃ id focus stack, activation = .loop id focus stack)
    (handed : handed? heap thread activation = some (id, executor))
    (same : refusal = heap.refusal? executor)
    (silent : heap.announced? activation = none)
    (grows : { thread with control := own ++ thread.control }.Grows refusal none thread') :
    Advanced heap thread activation thread' := by
  have refused : refused? heap thread activation =
      (heap.refusal? executor).map fun payload => (id, payload) := by
    rw [refused?, handed]
    rfl
  cases grows with
  | began fresh control calm' willing =>
    refine .calm left (silent ▸ fresh) control (calm'.trans calm) ?_
    rw [refused, ← same, willing]
    rfl
  | @refused payload panic =>
    rw [← same, panic] at refused
    exact .refused refused left interprets bare silent

theorem advanced_fork {id : FiberId} {effect : Node σ} {stack : List (Frame σ)}
    (calm : thread.panicking = none) (undue : heap.shouldInterrupt id = false) :
    Advanced heap thread (.loop id (.node (.fork effect)) stack)
      (fork heap thread id effect stack).2 := by
  have handed : handed? heap thread (.loop id (.node (.fork effect)) stack) =
      some (heap.nextFiber, heap.executorOf id) := by simp [handed?, undue]
  -- The parent goes on with the identity of the child, whatever becomes of the child.
  have left := Activation.Leaves.loop id (.node (.fork effect)) (.value ⟨.context, heap.nextFiber⟩)
    stack stack
  have interprets : ∀ other ∈ [Activation.loop id (.value ⟨.context, heap.nextFiber⟩) stack],
      other.interprets = true := fun other mem => List.mem_singleton.mp mem ▸ rfl
  obtain ⟨event, reported, child, rfl, next, seed, _, executor, forked⟩ :=
    exists_fork_eq heap thread id effect stack
  have present := (heap.report thread.id .debug event).fiber?_addFiber child
  rw [← next] at left interprets
  rw [forked]
  refine advanced_of_handed calm left interprets (by simp) handed ?_ rfl
    (grows_start _ (refocus thread id _ stack) present seed false)
  rw [executor]
  exact Heap.refusal?_of_executors (heap.executors_report thread.id .debug event) _

theorem advanced_interpret {id : FiberId} {current : Node σ} {stack : List (Frame σ)}
    (calm : thread.panicking = none) (undue : heap.shouldInterrupt id = false) :
    Advanced heap thread (.loop id (.node current) stack)
      (interpret heap thread id stack current).2 := by
  have refocused {focus : Focus σ} {stack' : List (Frame σ)}
      (willing : refused? heap thread (.loop id (.node current) stack) = none) :
      Advanced heap thread (.loop id (.node current) stack) (refocus thread id focus stack') :=
    advanced_refocus calm willing rfl
  -- Of all effects, only these two hand something to an executor.
  cases current with
  | shift executor =>
    have handed : handed? heap thread (.loop id (.node (.shift executor)) stack) =
        some (id, executor) := by simp [handed?, undue]
    have left := Activation.Leaves.gone (.loop id (.node (.shift executor)) stack)
    refine advanced_of_handed calm left (List.forall_mem_nil _) (fun _ => ⟨_, _, _, rfl⟩) handed ?_
      rfl (grows_execute _ _ _ _)
    refine Heap.refusal?_of_executors ((Heap.executors_report _ _ _ _).trans ?_) executor
    rfl
  | fork effect => exact advanced_fork calm undue
  | access continuation =>
    simp only [interpret]
    split <;> exact refocused (by simp [refused?, handed?, undue])
  | _ => exact refocused (by simp [refused?, handed?, undue])

theorem advanced_completeFiber {id : FiberId} {fiber : FiberState σ} {focus : Focus σ}
    {stack : List (Frame σ)} (calm : thread.panicking = none)
    (present : heap.fiber? id = some fiber) (running : fiber.exit? = none) {exit : Exit Erased}
    (willing : refused? heap thread (.loop id focus stack) = none)
    (ends : (Activation.loop id focus stack).ends? = some (id, exit)) :
    Advanced heap thread (.loop id focus stack) (completeFiber heap thread id exit).2 := by
  obtain ⟨begun, fresh, control, same⟩ :=
    (grows_completeFiber heap thread present running exit).of_willing
  have announced : heap.announced? (.loop id focus stack) = some (exit, heap.observers id) := by
    rw [Heap.announced?, ends]
  exact .calm (.gone _) (announced ▸ fresh) control (same.trans calm) willing

theorem advanced_stepLoop {id : FiberId} {fiber : FiberState σ} {focus : Focus σ}
    {stack : List (Frame σ)} (calm : thread.panicking = none)
    (present : heap.fiber? id = some fiber) (running : fiber.exit? = none) :
    Advanced heap thread (.loop id focus stack) (stepLoop heap thread id stack focus).2 := by
  have turn := turns_stepLoop heap thread id stack focus
  generalize stepLoop heap thread id stack focus = next at turn ⊢
  cases turn with
  | interrupts due => exact advanced_refocus calm (by simp [refused?, handed?, due]) rfl
  | interprets undue => exact advanced_interpret calm undue
  | delivers => exact advanced_refocus calm rfl rfl
  | succeeds => exact advanced_completeFiber calm present running rfl rfl
  | @handles cause _ _ _ found =>
    have silent : heap.announced? (.loop id (.cause cause) stack) = none := by
      simp only [Heap.announced?, Activation.ends?, found]
      rfl
    exact advanced_refocus calm rfl silent
  | fails missing =>
    exact advanced_completeFiber calm present running rfl (by simp [Activation.ends?, missing])
  | hands ended => cases ended <;> exact advanced_refocus calm rfl rfl
  | parks =>
    unfold park
    split
    next => exact advanced_refocus calm rfl rfl
    next => exact .calm (.gone _) .nothing rfl calm rfl
  | panics panics => cases panics <;> exact .calm (.loop _ _ _ _ _) .nothing rfl rfl rfl
  | requests holds => exact advanced_perform calm holds

/-- A step of a thread that is not panicking, if its innermost loop belongs to a running fiber. -/
theorem advanced_advance (calm : thread.panicking = none)
    (running : ∀ id focus stack, activation = .loop id focus stack →
      ∃ fiber, heap.fiber? id = some fiber ∧ fiber.exit? = none) :
    Advanced heap thread activation (advance heap thread activation).2 := by
  cases activation with
  | program code =>
    cases code with
    | done result => exact .calm (.gone _) .nothing rfl calm rfl
    | _ => exact advanced_perform calm (.program _)
  | callback code =>
    cases code with
    | done result => exact .calm (.gone _) .nothing rfl calm rfl
    | _ => exact advanced_perform calm (.callback _)
  | posting mailbox exit => exact .calm (.opening mailbox exit) .nothing rfl calm rfl
  | opening mailbox => exact .calm (.gone _) .nothing rfl calm rfl
  | loop id focus stack =>
    obtain ⟨fiber, present, running⟩ := running id focus stack rfl
    exact advanced_stepLoop calm present running
  | notifying exit observers =>
    cases observers with
    | nil => exact .calm (.gone _) .nothing rfl calm rfl
    | cons observer rest =>
      have grows := grows_notify heap (thread.push (.notifying exit rest)) exit observer
      -- Only an observer that is a suspended fiber goes through an executor.
      cases target : notified? heap thread observer with
      | some target' =>
        have handed : handed? heap thread (.notifying exit (observer :: rest)) = some target' :=
          target
        have interprets : ∀ other ∈ [Activation.notifying exit rest], other.interprets = true :=
          fun other mem => List.mem_singleton.mp mem ▸ rfl
        refine advanced_of_handed calm (.notifying exit observer rest) interprets (by simp) handed
          ?_
          rfl grows
        rw [show notified? heap (thread.push (.notifying exit rest)) observer = _ from target]
        rfl
      | none =>
        rw [show notified? heap (thread.push (.notifying exit rest)) observer = _ from target]
          at grows
        have willing : refused? heap thread (.notifying exit (observer :: rest)) = none := by
          rw [refused?, handed?, target]
          rfl
        obtain ⟨begun, fresh, control, same⟩ := grows.of_willing
        exact .calm (.notifying exit observer rest) fresh control (same.trans calm) willing
  | draining outer =>
    simp only [advance]
    split
    next batch rest popped => exact .calm (.gone _) (.loop _ _ _ outer) rfl calm rfl
    next => exact .calm (.gone _) .nothing rfl calm rfl

theorem Advanced.control {thread' : Thread σ} (h : Advanced heap thread activation thread') :
    ∃ begun own, Begun (heap.announced? activation) begun ∧ activation.Leaves own ∧
      thread'.control = begun ++ (own ++ thread.control) := by
  cases h with
  | calm left fresh control => exact ⟨_, _, fresh, left, control⟩
  | code left _ silent => exact ⟨[], _, silent ▸ .nothing, left, rfl⟩
  | refused _ left _ _ silent => exact ⟨[], _, silent ▸ .nothing, left, rfl⟩

/-- What is announced goes on top of the thread, which is not panicking. -/
theorem Advanced.announces {thread' : Thread σ} (h : Advanced heap thread activation thread')
    {exit : Exit Erased} {observers : List (Observer σ)}
    (announced : heap.announced? activation = some (exit, observers)) :
    ∃ own, thread'.panicking = none ∧
      thread'.control = .notifying exit observers :: (own ++ thread.control) := by
  cases h with
  | calm left fresh control calm =>
    rw [announced] at fresh
    cases fresh
    exact ⟨_, calm, control⟩
  | code _ _ silent | refused _ _ _ _ silent => cases silent.symm.trans announced

end Machine

/-! ### How activations are nested -/

/-- An activation is neither a loop nor code with nothing around it. -/
def Activation.isPlain : Activation σ → Bool
  | .program _ | .loop _ _ _ => false
  | _ => true

/-- Loops run in drains, and code with nothing to guard it is under everything else. -/
inductive Nested : List (Activation σ) → Prop where
  | programs (codes : List (Code σ Unit)) : Nested (codes.map .program)
  | loop {id : FiberId} {focus : Focus σ} {stack : List (Frame σ)}
      {outer : Option (Queue (Batch σ))} {rest : List (Activation σ)} (h : Nested rest) :
      Nested (.loop id focus stack :: .draining outer :: rest)
  | plain {activation : Activation σ} {rest : List (Activation σ)}
      (plain : activation.isPlain = true) (h : Nested rest) : Nested (activation :: rest)

namespace Nested

variable {activation : Activation σ} {rest : List (Activation σ)}

theorem of_program {code : Code σ Unit} (h : Nested (.program code :: rest)) :
    ∃ codes : List (Code σ Unit), rest = codes.map .program := by
  generalize whole : Activation.program code :: rest = control at h
  cases h with
  | programs codes =>
    cases codes with
    | nil => cases whole
    | cons first codes => exact ⟨codes, (List.cons.inj whole).2⟩
  | loop h => cases whole
  | plain plain h =>
    cases whole
    cases plain

theorem of_loop {id : FiberId} {focus : Focus σ} {stack : List (Frame σ)}
    (h : Nested (.loop id focus stack :: rest)) :
    ∃ outer below, rest = .draining outer :: below ∧ Nested below := by
  generalize whole : Activation.loop id focus stack :: rest = control at h
  cases h with
  | programs codes => cases codes <;> cases whole
  | loop h =>
    cases whole
    exact ⟨_, _, rfl, h⟩
  | plain plain h =>
    cases whole
    cases plain

theorem tail (h : Nested (activation :: rest)) : Nested rest := by
  generalize whole : activation :: rest = control at h
  cases h with
  | programs codes =>
    cases codes with
    | nil => cases whole
    | cons first codes =>
      obtain ⟨-, rfl⟩ := List.cons.inj whole
      exact .programs codes
  | loop h =>
    obtain ⟨-, rfl⟩ := List.cons.inj whole
    exact .plain rfl h
  | plain plain h =>
    obtain ⟨-, rfl⟩ := List.cons.inj whole
    exact h

theorem leaves (h : Nested (activation :: rest)) {own : List (Activation σ)}
    (left : activation.Leaves own) : Nested (own ++ rest) := by
  cases left with
  | gone => exact h.tail
  | program code code' =>
    obtain ⟨codes, rfl⟩ := h.of_program
    exact .programs (code' :: codes)
  | loop =>
    obtain ⟨outer, below, rfl, nested⟩ := h.of_loop
    exact .loop nested
  | callback | opening | notifying => exact .plain rfl h.tail

theorem begun (h : Nested rest) {fresh : List (Activation σ)} (begun : Begun announced fresh) :
    Nested (fresh ++ rest) := by
  cases begun with
  | nothing => exact h
  | loop => exact .loop h
  | notifying | callback | posting => exact .plain rfl h

end Nested

/-! ### Steps of a thread -/

theorem append_eq_append_cons {α : Type} {xs ys zs ws : List α} {a : α}
    (eq : xs ++ ys = zs ++ a :: ws) :
    (∃ us, xs = zs ++ a :: us ∧ ws = us ++ ys) ∨ ∃ us, zs = xs ++ us ∧ ys = us ++ a :: ws := by
  rcases List.append_eq_append_iff.mp eq with ⟨us, rfl, rfl⟩ | ⟨us, rfl, split⟩
  · exact .inr ⟨us, rfl, rfl⟩
  · cases us with
    | nil => exact .inr ⟨[], by simp, split.symm⟩
    | cons b us =>
      cases split
      exact .inl ⟨us, rfl, rfl⟩

/-- The exit that a thread announces in its next step, and to whom. -/
def Thread.announced? (thread : Thread σ) (heap : Heap σ) :
    Option (Exit Erased × List (Observer σ)) :=
  thread.next?.bind heap.announced?

namespace Machine

variable {heap : Heap σ} {thread : Thread σ} {activation : Activation σ}
  {rest : List (Activation σ)} {payload : Payload}

theorem step_of_panicking (heap : Heap σ) (panicking : thread.panicking = some payload)
    (control : thread.control = activation :: rest) :
    step heap thread = takePanic heap { thread with control := rest } payload activation := by
  rw [step, control, panicking]

theorem control_step_of_idle (heap : Heap σ) (idle : thread.control = []) :
    (step heap thread).2.control = [] := by
  rw [step, idle]
  cases thread.panicking with
  | none => exact idle
  | some payload =>
    simp only [crash]
    split <;> exact idle

/-- What the innermost loop of a thread needs to take a step. -/
def Steady (heap : Heap σ) (thread : Thread σ) : Prop :=
  ∀ id focus stack, thread.next? = some (.loop id focus stack) →
    ∃ fiber, heap.fiber? id = some fiber ∧ fiber.exit? = none

theorem advanced_step (steady : Steady heap thread) (calm : thread.panicking = none)
    (control : thread.control = activation :: rest) :
    Advanced heap { thread with control := rest } activation (step heap thread).2 := by
  rw [step_of_next? heap calm control]
  refine advanced_advance calm fun id focus stack looped => steady id focus stack ?_
  exact Thread.next?_eq_some_iff.mpr ⟨calm, rest, looped ▸ control⟩

/-- A panic that is taken leaves what is under the activation that takes it. -/
theorem takePanic_control (heap : Heap σ) (thread : Thread σ) (payload : Payload)
    (activation : Activation σ) :
    ∃ own, activation.Leaves own ∧
      (takePanic heap thread payload activation).2.control = own ++ thread.control := by
  cases activation with
  | loop id focus stack =>
    cases focus with
    | node | value | cause => exact ⟨_, .gone _, rfl⟩
    | thunk | raising | building | registering => exact ⟨_, .loop _ _ _ _ _, rfl⟩
  | program | callback | posting | opening | notifying | draining => exact ⟨_, .gone _, rfl⟩

/-- A step begins what it announces, if anything, and leaves the rest of the stack as it is. -/
theorem control_step (steady : Steady heap thread) (control : thread.control = activation :: rest) :
    ∃ begun own, Begun (thread.announced? heap) begun ∧ activation.Leaves own ∧
      (step heap thread).2.control = begun ++ (own ++ rest) := by
  cases panicking : thread.panicking with
  | none =>
    have next : thread.next? = some activation :=
      Thread.next?_eq_some_iff.mpr ⟨panicking, rest, control⟩
    rw [Thread.announced?, next]
    exact (advanced_step steady panicking control).control
  | some payload =>
    have silent : thread.announced? heap = none := by
      rw [Thread.announced?, Thread.next?, panicking]
      rfl
    obtain ⟨own, left, control'⟩ :=
      takePanic_control heap { thread with control := rest } payload activation
    rw [step_of_panicking heap panicking control, silent]
    exact ⟨[], own, .nothing, left, control'⟩

/-- Those who are to be notified after a step have just been announced the exit, or the first one
has just been called, or they were to be notified before and something else was on top. -/
theorem notifying_step (steady : Steady heap thread) {exit : Exit Erased}
    {observers : List (Observer σ)} {above below : List (Activation σ)}
    (after : (step heap thread).2.control = above ++ .notifying exit observers :: below) :
    thread.announced? heap = some (exit, observers) ∧ above = [] ∨
      (∃ observer, thread.control = .notifying exit (observer :: observers) :: below) ∨
      ∃ top above', thread.control = top :: above' ++ .notifying exit observers :: below := by
  cases control : thread.control with
  | nil =>
    rw [control_step_of_idle heap control] at after
    simp at after
  | cons activation rest =>
    obtain ⟨begun, own, fresh, left, control'⟩ := control_step steady control
    rw [control'] at after
    -- They are in what the step began, in what it left of the activation, or further down.
    rcases append_eq_append_cons after with ⟨us, rfl, _⟩ | ⟨us, rfl, split⟩
    · obtain ⟨announced, whole⟩ := fresh.of_notifying (List.mem_append_cons_self)
      have bare := (List.append_eq_singleton_iff.mp whole).resolve_right (by simp)
      exact .inl ⟨announced, bare.1⟩
    · rcases append_eq_append_cons split with ⟨vs, rfl, rfl⟩ | ⟨vs, rfl, rfl⟩
      · obtain ⟨observer, rfl, whole⟩ := left.of_notifying (List.mem_append_cons_self)
        have bare := (List.append_eq_singleton_iff.mp whole).resolve_right (by simp)
        rw [(List.cons.inj bare.2).2]
        exact .inr (.inl ⟨observer, rfl⟩)
      · exact .inr (.inr ⟨activation, vs, rfl⟩)

theorem nested_step (steady : Steady heap thread) (nested : Nested thread.control) :
    Nested (step heap thread).2.control := by
  cases control : thread.control with
  | nil =>
    rw [control_step_of_idle heap control]
    exact .programs []
  | cons activation rest =>
    rw [control] at nested
    obtain ⟨begun, own, fresh, left, control'⟩ := control_step steady control
    rw [control']
    exact (nested.leaves left).begun fresh

/-- What a step does to the progress of all fibers. -/
theorem progress_step (steady : Steady heap thread) (id : FiberId) :
    (step heap thread).1.progress id =
      match thread.next? with
      | some activation => heap.progressAfter activation id
      | none => heap.progress id := by
  cases panicking : thread.panicking with
  | none =>
    cases control : thread.control with
    | nil =>
      rw [step, control, panicking, Thread.next?, panicking, control]
      rfl
    | cons activation rest =>
      have next : thread.next? = some activation :=
        Thread.next?_eq_some_iff.mpr ⟨panicking, rest, control⟩
      rw [step_of_next? heap panicking control, next]
      refine progress_advance heap _ id fun own focus stack looped => steady own focus stack ?_
      rw [next, looped]
  | some payload =>
    rw [Thread.next?, panicking]
    cases control : thread.control with
    | nil =>
      rw [step, control, panicking]
      exact progress_crash heap thread id payload
    | cons activation rest =>
      rw [step_of_panicking heap panicking control]
      exact progress_takePanic heap _ id payload activation

end Machine

end Fibers
