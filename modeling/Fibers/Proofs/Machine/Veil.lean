import Fibers.Proofs.Machine.Request
import Fibers.Proofs.Machine.Handover

/-!
# Behind a veil

A machine looks at the flags of a fiber only where it polls for interruption, and never at what it
has reported. A heap in which some of that is hidden therefore runs as the heap itself.

## Main results

`Machine.step_behind`: a step that neither asks for the interruption of the fiber nor interrupts it
is the same behind a veil. `Machine.isRequested_step` and `Machine.isFinalizing_step` tell from this
which steps raise the flags of a fiber, and `Machine.step_unasked` that a fiber which is not
interrupted does not know whether it has been asked.

## Proof strategy

One equation for each operation says that the operation and the veil commute. They are tagged for
`simp`, in the direction that takes the veil outwards.
-/

namespace Fibers

variable {σ : Type}

/-- Whether an event reports a request for the interruption of a fiber. -/
def Event.Asks (id : FiberId) : Event → Prop
  | .interruptionRequested fiber => fiber.index = id.index
  | _ => False

/-- Something to hide: a part of the flags of one fiber, and reports of requests for its
interruption. The status of the fiber stays in view. -/
structure Veil where
  fiber : FiberId
  flags : InterruptFlags → InterruptFlags
  keeps : Event → Bool
  fresh : flags {} = {}
  status : ∀ own, (flags own).status = own.status
  setStatus : ∀ own status, flags (own.setStatus status) = (flags own).setStatus status
  keeps_other : ∀ event, ¬event.Asks fiber → keeps event = true

namespace Veil

/-- The flags of a fiber, as they are seen. -/
def seen (veil : Veil) (id : FiberId) (own : InterruptFlags) : InterruptFlags :=
  if veil.fiber.index = id.index then veil.flags own else own

/-- The requests for the interruption of a fiber, their reports included. -/
def requests (id : FiberId) : Veil where
  fiber := id
  flags own := { own with requested := false }
  keeps
    | .interruptionRequested fiber => fiber.index != id.index
    | _ => true
  fresh := rfl
  status _ := rfl
  setStatus _ _ := rfl
  keeps_other event other := by
    cases event with
    | interruptionRequested fiber => exact bne_iff_ne.mpr other
    | _ => rfl

/-- Whether a fiber has been asked for interruption. -/
def asked (id : FiberId) : Veil where
  fiber := id
  flags own := { own with requested := false }
  keeps _ := true
  fresh := rfl
  status _ := rfl
  setStatus _ _ := rfl
  keeps_other _ _ := rfl

/-- Whether an interruption of a fiber has taken effect. -/
def finalizing (id : FiberId) : Veil where
  fiber := id
  flags own := { own with finalizing := false }
  keeps _ := true
  fresh := rfl
  status _ := rfl
  setStatus _ _ := rfl
  keeps_other _ _ := rfl

@[simp] theorem status_seen (veil : Veil) (id : FiberId) (own : InterruptFlags) :
    (veil.seen id own).status = own.status := by
  unfold seen
  split
  · exact veil.status own
  · rfl

@[simp] theorem seen_setStatus (veil : Veil) (id : FiberId) (own : InterruptFlags)
    (status : InterruptStatus) :
    veil.seen id (own.setStatus status) = (veil.seen id own).setStatus status := by
  unfold seen
  split
  · exact veil.setStatus own status
  · rfl

@[simp] theorem seen_fresh (veil : Veil) (id : FiberId) : veil.seen id {} = {} := by
  unfold seen
  split
  · exact veil.fresh
  · rfl

theorem seen_other (veil : Veil) {id : FiberId} (other : veil.fiber.index ≠ id.index)
    (own : InterruptFlags) : veil.seen id own = own := if_neg other

end Veil

/-! ### Heaps behind a veil -/

namespace Heap

/-- A heap of which something is hidden. -/
def behind (veil : Veil) (heap : Heap σ) : Heap σ :=
  { heap with
    fibers := heap.fibers.modify veil.fiber.index fun fiber =>
      { fiber with flags := veil.flags fiber.flags }
    events := heap.events.filter fun report => veil.keeps report.2 }

variable (veil : Veil) (heap : Heap σ)

/-! #### What is read -/

theorem fiber?_behind (id : FiberId) :
    (heap.behind veil).fiber? id =
      (heap.fiber? id).map fun fiber => { fiber with flags := veil.seen id fiber.flags } := by
  rw [fiber?, fiber?, behind, Array.getElem?_modify]
  unfold Veil.seen
  split
  · rfl
  · exact Option.map_id'.symm

@[simp] theorem nextFiber_behind : (heap.behind veil).nextFiber = heap.nextFiber := by
  simp [nextFiber, behind]

@[simp] theorem poll_behind (id : FiberId) : (heap.behind veil).poll id = heap.poll id := by
  unfold poll
  rw [fiber?_behind]
  obtain _ | ⟨progress, flags, environments, executor, seed⟩ := heap.fiber? id
  · rfl
  · cases progress <;> rfl

@[simp] theorem status_behind (id : FiberId) : (heap.behind veil).status id = heap.status id := by
  unfold status
  rw [fiber?_behind]
  obtain _ | fiber := heap.fiber? id
  · rfl
  · exact veil.status_seen id fiber.flags

@[simp] theorem environments_behind (id : FiberId) :
    (heap.behind veil).environments id = heap.environments id := by
  unfold environments
  rw [fiber?_behind]
  obtain _ | fiber := heap.fiber? id <;> rfl

@[simp] theorem executorOf_behind (id : FiberId) :
    (heap.behind veil).executorOf id = heap.executorOf id := by
  unfold executorOf
  rw [fiber?_behind]
  obtain _ | fiber := heap.fiber? id <;> rfl

@[simp] theorem executor?_behind (id : ExecutorId) :
    (heap.behind veil).executor? id = heap.executor? id := rfl

@[simp] theorem executorName_behind (id : ExecutorId) :
    (heap.behind veil).executorName id = heap.executorName id := rfl

@[simp] theorem waiting_behind (id : ExecutorId) :
    (heap.behind veil).waiting id = heap.waiting id := rfl

@[simp] theorem suspension?_behind (callback : CallbackId) :
    (heap.behind veil).suspension? callback = heap.suspension? callback := rfl

@[simp] theorem nextCallback_behind : (heap.behind veil).nextCallback = heap.nextCallback := rfl

@[simp] theorem nextMailbox_behind : (heap.behind veil).nextMailbox = heap.nextMailbox := rfl

@[simp] theorem isOpen_behind (mailbox : MailboxId) :
    (heap.behind veil).isOpen mailbox = heap.isOpen mailbox := rfl

@[simp] theorem slot_behind (mailbox : MailboxId) :
    (heap.behind veil).slot mailbox = heap.slot mailbox := rfl

/-! #### What is changed -/

theorem updateFiber_behind (id : FiberId) {f : FiberState σ → FiberState σ}
    (commutes : ∀ fiber, f { fiber with flags := veil.seen id fiber.flags } =
      { f fiber with flags := veil.seen id (f fiber).flags }) :
    (heap.behind veil).updateFiber id f = (heap.updateFiber id f).behind veil := by
  unfold updateFiber behind
  congr 1
  refine Array.ext_getElem? fun index => ?_
  simp only [Array.getElem?_modify]
  by_cases own : id.index = index
  · subst own
    obtain _ | fiber := heap.fibers[id.index]?
    · simp
    · have commutes := commutes fiber
      unfold Veil.seen at commutes
      by_cases hidden : veil.fiber.index = id.index
      · simpa [hidden] using commutes
      · simp [hidden]
  · simp only [if_neg own]

theorem updateFlags_behind (id : FiberId) {f : InterruptFlags → InterruptFlags}
    (commutes : ∀ own, f (veil.seen id own) = veil.seen id (f own)) :
    (heap.behind veil).updateFlags id f = (heap.updateFlags id f).behind veil :=
  heap.updateFiber_behind veil id fun fiber => by simp only [commutes]

@[simp] theorem enterScope_behind (id : FiberId) (environment : Erased) :
    (heap.behind veil).enterScope id environment = (heap.enterScope id environment).behind veil :=
  heap.updateFiber_behind veil id fun _ => rfl

@[simp] theorem leaveScope_behind (id : FiberId) :
    (heap.behind veil).leaveScope id = (heap.leaveScope id).behind veil :=
  heap.updateFiber_behind veil id fun _ => rfl

@[simp] theorem setExecutor_behind (id : FiberId) (executor : ExecutorId) :
    (heap.behind veil).setExecutor id executor = (heap.setExecutor id executor).behind veil :=
  heap.updateFiber_behind veil id fun _ => rfl

/-- A new fiber has nothing to hide. -/
theorem addFiber_behind {fiber : FiberState σ} (fresh : fiber.flags = {}) :
    (heap.behind veil).addFiber fiber = (heap.addFiber fiber).behind veil := by
  unfold addFiber behind
  congr 1
  refine Array.ext_getElem? fun index => ?_
  simp only [Array.getElem?_push, Array.getElem?_modify, Array.size_modify]
  by_cases last : index = heap.fibers.size
  · have same : { fiber with flags := veil.flags fiber.flags } = fiber := by
      rw [fresh, veil.fresh, ← fresh]
    simp [last, same]
  · simp only [if_neg last]

@[simp] theorem addSuspension_behind (id : FiberId) :
    (heap.behind veil).addSuspension id = (heap.addSuspension id).behind veil := rfl

@[simp] theorem setRendezvous_behind (callback : CallbackId) (state : Rendezvous σ) :
    (heap.behind veil).setRendezvous callback state =
      (heap.setRendezvous callback state).behind veil := rfl

@[simp] theorem addMailbox_behind :
    (heap.behind veil).addMailbox = heap.addMailbox.behind veil := rfl

@[simp] theorem updateMailbox_behind (mailbox : MailboxId) (f : Mailbox → Mailbox) :
    (heap.behind veil).updateMailbox mailbox f = (heap.updateMailbox mailbox f).behind veil := rfl

@[simp] theorem setWaiting_behind (id : ExecutorId) (waiting : Queue (Task σ)) :
    (heap.behind veil).setWaiting id waiting = (heap.setWaiting id waiting).behind veil := rfl

@[simp] theorem enqueue_behind (id : ExecutorId) (task : Task σ) :
    (heap.behind veil).enqueue id task = (heap.enqueue id task).behind veil := rfl

theorem report_behind (thread : ThreadId) (severity : Severity) {event : Event}
    (kept : veil.keeps event = true) :
    ((heap.behind veil).report thread severity fun _ => event) =
      (heap.report thread severity fun _ => event).behind veil := by
  unfold report behind
  dsimp only
  split
  · simp [kept]
  · rfl

/-- A report of anything but a request is in view. -/
theorem report_behind_of_other (thread : ThreadId) (severity : Severity) {event : Event}
    (other : ¬event.Asks veil.fiber) :
    ((heap.behind veil).report thread severity fun _ => event) =
      (heap.report thread severity fun _ => event).behind veil :=
  heap.report_behind veil thread severity (veil.keeps_other _ other)

@[simp] theorem noteDefect_behind (thread : ThreadId) (payload : Payload) :
    (heap.behind veil).noteDefect thread payload = (heap.noteDefect thread payload).behind veil :=
  report_behind_of_other veil { heap with defects := heap.defects + 1 } thread .warn not_false

end Heap

/-! ### Machines behind a veil -/

/-- The next request of some code does nothing that a veil hides. -/
def Action.Admitted {ν κ α : Type} (veil : Veil) : Action ν κ σ α → Prop
  | .interrupt fiber _ => veil.fiber.index ≠ fiber.index
  | .report event _ => veil.keeps event = true
  | _ => True

namespace Machine

/-- What a step leaves, seen through a veil. -/
def behind (veil : Veil) (after : Heap σ × Thread σ) : Heap σ × Thread σ :=
  (after.1.behind veil, after.2)

@[simp] theorem behind_mk (veil : Veil) (heap : Heap σ) (thread : Thread σ) :
    behind veil (heap, thread) = (heap.behind veil, thread) := rfl

variable (veil : Veil) (heap : Heap σ) (thread : Thread σ)

@[simp] theorem execute_behind (executor : ExecutorId) (task : Task σ) :
    execute (heap.behind veil) thread executor task =
      behind veil (execute heap thread executor task) := by
  unfold execute
  rw [Heap.executor?_behind]
  obtain _ | ⟨name, discipline, waiting⟩ := heap.executor? executor
  · rfl
  · cases discipline <;> rfl

@[simp] theorem start_behind (id : FiberId) (root : Bool) :
    start (heap.behind veil) thread id root = behind veil (start heap thread id root) := by
  unfold start
  rw [Heap.fiber?_behind]
  obtain _ | ⟨progress, flags, environments, executor, _ | effect⟩ := heap.fiber? id
  · rfl
  · rfl
  · simp only [Option.map_some, Heap.executorName_behind]
    rw [Heap.updateFiber_behind _ _ _ fun _ => rfl, Heap.report_behind_of_other]
    · exact execute_behind veil _ thread executor _
    · exact not_false

@[simp] theorem newRoot_behind (executor : ExecutorId) (effect : Node σ)
    (observers : List (Observer σ)) :
    newRoot (heap.behind veil) executor effect observers =
      (newRoot heap executor effect observers).behind veil :=
  heap.addFiber_behind veil rfl

@[simp] theorem resume_behind (id : FiberId) (value : Erased) (stack : List (Frame σ)) :
    resume (heap.behind veil) thread id value stack =
      behind veil (resume heap thread id value stack) := by
  unfold resume
  dsimp only
  rw [Heap.report_behind_of_other]
  · cases thread.pending <;> simp
  · exact not_false

@[simp] theorem completeCallback_behind (callback : CallbackId) (value : Erased) :
    completeCallback (heap.behind veil) thread callback value =
      behind veil (completeCallback heap thread callback value) := by
  unfold completeCallback
  rw [Heap.suspension?_behind]
  obtain _ | ⟨fiber, state⟩ := heap.suspension? callback
  · rfl
  · cases state <;> simp

@[simp] theorem completeFiber_behind (id : FiberId) (exit : Exit Erased) :
    completeFiber (heap.behind veil) thread id exit =
      behind veil (completeFiber heap thread id exit) := by
  unfold completeFiber
  rw [Heap.fiber?_behind]
  obtain _ | ⟨progress, flags, environments, executor, seed⟩ := heap.fiber? id
  · rfl
  · cases progress with
    | running observers =>
      simp only [Option.map_some]
      rw [Heap.updateFiber_behind _ _ _ fun _ => rfl, Heap.report_behind_of_other]
      · rfl
      · exact not_false
    | done exit => rfl

@[simp] theorem observe_behind (id : FiberId) (observer : Observer σ) :
    observe (heap.behind veil) thread id observer =
      behind veil (observe heap thread id observer) := by
  unfold observe
  rw [Heap.fiber?_behind]
  obtain _ | ⟨progress, flags, environments, executor, seed⟩ := heap.fiber? id
  · rfl
  · cases progress with
    | running observers =>
      simp only [Option.map_some, behind_mk]
      rw [Heap.updateFiber_behind]
      rintro ⟨progress, flags, environments, executor, seed⟩
      cases progress <;> rfl
    | done exit => rfl

@[simp] theorem notify_behind (exit : Exit Erased) (observer : Observer σ) :
    notify (heap.behind veil) thread exit observer =
      behind veil (notify heap thread exit observer) := by
  cases observer with
  | resume type callback => exact completeCallback_behind veil heap thread callback _
  | call callback => cases callback; rfl
  | answer type mailbox => rfl

/-- A request to another fiber is made as it is. -/
theorem requestInterrupt_behind {id : FiberId} (other : veil.fiber.index ≠ id.index) :
    requestInterrupt (heap.behind veil) thread id =
      (requestInterrupt heap thread id).behind veil := by
  unfold requestInterrupt
  rw [Heap.fiber?_behind]
  obtain _ | fiber := heap.fiber? id
  · rfl
  · simp only [Option.map_some, veil.seen_other other]
    rw [Heap.updateFlags_behind _ _ _ fun own => by simp only [veil.seen_other other]]
    split
    · rfl
    · exact Heap.report_behind_of_other _ _ _ _ (Ne.symm other)

/-! #### User code -/

theorem perform_behind {α : Type} (keep : Code σ α → Activation σ) {code : Code σ α}
    (admitted : code.Admitted veil) :
    perform (heap.behind veil) thread keep code = behind veil (perform heap thread keep code) := by
  cases code with
  | interrupt fiber next =>
    rw [perform, perform, requestInterrupt_behind _ _ _ admitted, behind_mk]
  | wait mailbox deadline next =>
    have same : (heap.behind veil).now = heap.now := rfl
    simp only [perform, Heap.isOpen_behind, Heap.slot_behind, same]
    split
    · rfl
    · split <;> rfl
  | runTask executor newest next =>
    simp only [perform, Heap.waiting_behind]
    split <;> rfl
  | report event next =>
    rw [perform, perform, Heap.report_behind _ _ _ _ admitted, behind_mk]
  | launch | launchWith | submit => simp [perform]
  | _ => simp [perform] <;> rfl

/-! #### Loops -/

@[simp] theorem fork_behind (parent : FiberId) (effect : Node σ) (stack : List (Frame σ)) :
    fork (heap.behind veil) thread parent effect stack =
      behind veil (fork heap thread parent effect stack) := by
  unfold fork
  simp only [Heap.nextFiber_behind, Heap.environments_behind, Heap.executorOf_behind]
  rw [Heap.addFiber_behind _ _ rfl, Heap.report_behind_of_other]
  · exact start_behind veil _ _ _ _
  · exact not_false

@[simp] theorem interpret_behind (id : FiberId) (stack : List (Frame σ)) (node : Node σ) :
    interpret (heap.behind veil) thread id stack node =
      behind veil (interpret heap thread id stack node) := by
  cases node with
  | flatMap effect continuation | fold effect handler =>
    simp only [interpret]
    rw [Heap.report_behind_of_other]
    · rfl
    · exact not_false
  | shift executor =>
    simp only [interpret, Heap.executorName_behind, Heap.setExecutor_behind]
    rw [Heap.report_behind_of_other]
    · exact execute_behind veil _ thread executor _
    · exact not_false
  | withStatus effect status | restoreStatus status =>
    simp only [interpret, Heap.status_behind, behind_mk]
    rw [Heap.updateFlags_behind]
    exact fun own => (veil.seen_setStatus id own status).symm
  | access continuation =>
    simp only [interpret, Heap.environments_behind]
    split <;> rfl
  | _ => simp [interpret]

/-- An interruption takes effect behind a veil that lets it be seen. -/
theorem beginInterruption_behind {id : FiberId}
    (commutes : ∀ own, (veil.seen id own).beginFinalizing = veil.seen id own.beginFinalizing)
    (stack : List (Frame σ)) (current : Node σ) :
    beginInterruption (heap.behind veil) thread id stack current =
      behind veil (beginInterruption heap thread id stack current) := by
  simp only [beginInterruption]
  rw [Heap.updateFlags_behind _ _ _ commutes, Heap.report_behind_of_other]
  · rfl
  · exact not_false

@[simp] theorem deliver_behind (id : FiberId) (value : Erased) (stack : List (Frame σ)) :
    deliver (heap.behind veil) thread id value stack =
      behind veil (deliver heap thread id value stack) := by
  cases stack with
  | nil => exact completeFiber_behind veil heap thread id _
  | cons frame stack =>
    simp only [deliver]
    rw [Heap.report_behind_of_other]
    · rfl
    · exact not_false

@[simp] theorem fail_behind (id : FiberId) (cause : Cause) (stack : List (Frame σ)) :
    fail (heap.behind veil) thread id cause stack =
      behind veil (fail heap thread id cause stack) := by
  unfold fail
  split
  · rfl
  · exact completeFiber_behind veil heap thread id _

@[simp] theorem park_behind (id : FiberId) (callback : CallbackId) (stack : List (Frame σ)) :
    park (heap.behind veil) thread id callback stack =
      behind veil (park heap thread id callback stack) := by
  unfold park
  rw [Heap.suspension?_behind]
  split
  · rfl
  · simp only [Heap.setRendezvous_behind]
    rw [Heap.report_behind_of_other]
    · rfl
    · exact not_false

@[simp] theorem unwindLoop_behind (payload : Payload) (id : FiberId) (stack : List (Frame σ))
    (focus : Focus σ) :
    unwindLoop (heap.behind veil) thread payload id stack focus =
      behind veil (unwindLoop heap thread payload id stack focus) := by
  cases focus <;> simp [unwindLoop]

end Machine

/-- The code that an activation runs does nothing next that a veil hides. -/
def Activation.Admitted (veil : Veil) (activation : Activation σ) : Prop :=
  ∀ (α : Type) (keep : Code σ α → Activation σ) (code : Code σ α),
    activation.Holds keep code → code.Admitted veil

/-- A poll has the same result behind a veil, and the veil lets an interruption be seen. -/
structure Veil.Admits (veil : Veil) (heap : Heap σ) (id : FiberId) : Prop where
  same : (heap.behind veil).shouldInterrupt id = heap.shouldInterrupt id
  commutes : heap.shouldInterrupt id = true →
    ∀ own, (veil.seen id own).beginFinalizing = veil.seen id own.beginFinalizing

namespace Machine

variable (veil : Veil) (heap : Heap σ) (thread : Thread σ)

theorem advance_behind {activation : Activation σ} (admitted : activation.Admitted veil)
    (admits : ∀ id current stack, activation = .loop id (.node current) stack →
      veil.Admits heap id) :
    advance (heap.behind veil) thread activation =
      behind veil (advance heap thread activation) := by
  -- User code that still makes a request is alike for every activation that holds some.
  by_cases going : ∃ (α : Type) (keep : Code σ α → Activation σ) (code : Code σ α),
      activation.Holds keep code ∧ code.isOver = false
  · obtain ⟨α, keep, code, holds, going⟩ := going
    rw [advance_of_holds holds going, advance_of_holds holds going]
    exact perform_behind veil heap thread keep (admitted α keep code holds)
  · have ended : ∀ {α : Type} {keep : Code σ α → Activation σ} {code : Code σ α},
        activation.Holds keep code →
        (∃ result, code = .done result) ∨ ∃ payload, code = .panic payload :=
      fun {α keep code} holds => Action.eq_of_isOver (Bool.of_not_eq_false fun open' =>
        going ⟨α, keep, code, holds, open'⟩)
    cases activation with
    | program code => rcases ended (.program code) with ⟨_, rfl⟩ | ⟨_, rfl⟩ <;> rfl
    | callback code => rcases ended (.callback code) with ⟨_, rfl⟩ | ⟨_, rfl⟩ <;> rfl
    | posting | opening => rfl
    | notifying exit observers =>
      cases observers with
      | nil => rfl
      | cons observer rest => exact notify_behind veil heap _ exit observer
    | draining outer =>
      simp only [advance]
      split <;> rfl
    | loop id focus stack =>
      cases focus with
      | node current =>
        obtain ⟨same, commutes⟩ := admits id current stack rfl
        simp only [advance, stepLoop, same]
        split
        next due => exact beginInterruption_behind veil heap thread (commutes due) stack current
        next => exact interpret_behind veil heap thread id stack current
      | value value => exact deliver_behind veil heap thread id value stack
      | cause cause => exact fail_behind veil heap thread id cause stack
      | thunk code =>
        rcases ended (.thunk id code stack) with ⟨_, rfl⟩ | ⟨_, rfl⟩ <;> simp [advance, stepLoop]
      | raising code =>
        rcases ended (.raising id code stack) with ⟨_, rfl⟩ | ⟨_, rfl⟩ <;> simp [advance, stepLoop]
      | building code =>
        rcases ended (.building id code stack) with ⟨_, rfl⟩ | ⟨_, rfl⟩ <;> simp [advance, stepLoop]
      | registering callback code =>
        rcases ended (.registering id callback code stack) with ⟨_, rfl⟩ | ⟨_, rfl⟩ <;>
          simp [advance, stepLoop]

theorem takePanic_behind (payload : Payload) (activation : Activation σ) :
    takePanic (heap.behind veil) thread payload activation =
      behind veil (takePanic heap thread payload activation) := by
  cases activation <;> simp [takePanic]

theorem crash_behind (payload : Payload) :
    crash (heap.behind veil) thread payload = behind veil (crash heap thread payload) := by
  unfold crash
  split
  · rw [Heap.report_behind_of_other]
    · rfl
    · exact not_false
  · rfl

/-- A step that does nothing which a veil hides is the same behind the veil. -/
theorem step_behind
    (admitted : ∀ activation, thread.next? = some activation → activation.Admitted veil)
    (admits : ∀ id current stack, thread.next? = some (.loop id (.node current) stack) →
      veil.Admits heap id) :
    step (heap.behind veil) thread = behind veil (step heap thread) := by
  unfold step
  split
  next => rfl
  next => exact crash_behind veil heap thread _
  next activation rest control calm =>
    have next : thread.next? = some activation :=
      Thread.next?_eq_some_iff.mpr ⟨calm, rest, control⟩
    exact advance_behind veil heap _ (admitted activation next) fun id current stack own =>
      admits id current stack (own ▸ next)
  next => exact takePanic_behind veil heap _ _ _

end Machine

/-! ### What raises the flags of a fiber -/

/-- Whether a fiber has been asked for interruption. -/
def Heap.isRequested (heap : Heap σ) (id : FiberId) : Bool :=
  (heap.fiber? id).any fun fiber => fiber.flags.requested

/-- Whether an interruption of a fiber has taken effect. -/
def Heap.isFinalizing (heap : Heap σ) (id : FiberId) : Bool :=
  (heap.fiber? id).any fun fiber => fiber.flags.finalizing

/-- Nothing is hidden where there is nothing to hide. -/
theorem Heap.behind_eq_self {veil : Veil} {heap : Heap σ} (keeps : ∀ event, veil.keeps event = true)
    (same : ∀ fiber, heap.fiber? veil.fiber = some fiber → veil.flags fiber.flags = fiber.flags) :
    heap.behind veil = heap := by
  have events : (heap.events.filter fun report => veil.keeps report.2) = heap.events := by
    simp [keeps]
  have fibers : (heap.fibers.modify veil.fiber.index fun fiber =>
      { fiber with flags := veil.flags fiber.flags }) = heap.fibers := by
    refine Array.ext_getElem? fun index => ?_
    rw [Array.getElem?_modify]
    split
    next own =>
      subst own
      cases present : heap.fibers[veil.fiber.index]? with
      | none => rfl
      | some fiber => simp [same fiber present]
    next => rfl
  rw [behind, events, fibers]

theorem Heap.behind_asked {heap : Heap σ} {id : FiberId} (idle : heap.isRequested id = false) :
    heap.behind (.asked id) = heap := by
  refine Heap.behind_eq_self (fun _ => rfl) fun fiber present => ?_
  have present : heap.fiber? id = some fiber := present
  have idle : fiber.flags.requested = false := by simpa [isRequested, present] using idle
  simp [Veil.asked, ← idle]

theorem Heap.behind_finalizing {heap : Heap σ} {id : FiberId}
    (idle : heap.isFinalizing id = false) : heap.behind (.finalizing id) = heap := by
  refine Heap.behind_eq_self (fun _ => rfl) fun fiber present => ?_
  have present : heap.fiber? id = some fiber := present
  have idle : fiber.flags.finalizing = false := by simpa [isFinalizing, present] using idle
  simp [Veil.finalizing, ← idle]

theorem Veil.seen_beginFinalizing {veil : Veil}
    (commutes : ∀ own, (veil.flags own).beginFinalizing = veil.flags own.beginFinalizing)
    (id : FiberId) (own : InterruptFlags) :
    (veil.seen id own).beginFinalizing = veil.seen id own.beginFinalizing := by
  unfold Veil.seen
  split
  · exact commutes own
  · rfl

namespace Heap

variable {heap : Heap σ} {veil : Veil} {id : FiberId}

theorem any_behind (p : InterruptFlags → Bool) (id : FiberId) :
    ((heap.behind veil).fiber? id).any (fun fiber => p fiber.flags) =
      (heap.fiber? id).any fun fiber => p (veil.seen id fiber.flags) := by
  rw [fiber?_behind, Option.any_map]

theorem shouldInterrupt_behind_of_other (other : veil.fiber.index ≠ id.index) :
    (heap.behind veil).shouldInterrupt id = heap.shouldInterrupt id := by
  unfold shouldInterrupt
  rw [fiber?_behind]
  cases heap.fiber? id with
  | none => rfl
  | some fiber => simp only [Option.map_some, veil.seen_other other]

theorem shouldInterrupt_unasked {asked : FiberId} (own : asked.index = id.index) :
    (heap.behind (.requests asked)).shouldInterrupt id = false := by
  unfold shouldInterrupt
  rw [fiber?_behind]
  cases heap.fiber? id with
  | none => rfl
  | some fiber => simp [Veil.seen, Veil.requests, own, InterruptFlags.shouldInterrupt]

theorem behind_requests_twice (heap : Heap σ) :
    (heap.behind (.requests id)).behind (.requests id) = heap.behind (.requests id) := by
  unfold behind
  congr 1
  · refine Array.ext_getElem? fun index => ?_
    simp only [Array.getElem?_modify]
    split
    · simp [Function.comp_def, Veil.requests]
    · rfl
  · exact Array.filter_filter.trans (by simp)

theorem isRequested_asked (heap : Heap σ) : (heap.behind (.asked id)).isRequested id = false := by
  rw [isRequested, heap.any_behind (·.requested)]
  cases heap.fiber? id <;> simp [Veil.seen, Veil.asked]

theorem isFinalizing_finalizing (heap : Heap σ) :
    (heap.behind (.finalizing id)).isFinalizing id = false := by
  rw [isFinalizing, heap.any_behind (·.finalizing)]
  cases heap.fiber? id <;> simp [Veil.seen, Veil.finalizing]

theorem isFinalizing_requests (heap : Heap σ) :
    (heap.behind (.requests id)).isFinalizing id = heap.isFinalizing id := by
  rw [isFinalizing, heap.any_behind (·.finalizing)]
  simp [Veil.seen, Veil.requests, isFinalizing]

end Heap

/-! ### Requests that are not heard -/

theorem Heap.report_hidden {veil : Veil} (heap : Heap σ) (thread : ThreadId) (severity : Severity)
    {event : Event} (hidden : veil.keeps event = false) :
    (heap.report thread severity fun _ => event).behind veil = heap.behind veil := by
  unfold report behind
  split
  · simp [hidden]
  · rfl

theorem Heap.updateFlags_hidden {veil : Veil} (heap : Heap σ) {id : FiberId}
    {f : InterruptFlags → InterruptFlags} (own : id.index = veil.fiber.index)
    (hidden : ∀ flags, veil.flags (f flags) = veil.flags flags) :
    (heap.updateFlags id f).behind veil = heap.behind veil := by
  unfold updateFlags updateFiber behind
  congr 1
  refine Array.ext_getElem? fun index => ?_
  simp only [Array.getElem?_modify, own]
  split
  · simp [Function.comp_def, hidden]
  · rfl

namespace Machine

theorem requestInterrupt_hidden (heap : Heap σ) (thread : Thread σ) {fiber id : FiberId}
    (own : fiber.index = id.index) :
    (requestInterrupt heap thread fiber).behind (.requests id) = heap.behind (.requests id) := by
  have raised : (heap.updateFlags fiber InterruptFlags.request).behind (.requests id) =
      heap.behind (.requests id) := heap.updateFlags_hidden own fun _ => rfl
  unfold requestInterrupt
  split
  next =>
    dsimp only
    split
    next => exact raised
    next =>
      rw [Heap.report_hidden]
      · exact raised
      · simpa [Veil.requests] using own
  next => rfl

theorem perform_hidden {α : Type} (keep : Code σ α → Activation σ) (thread : Thread σ)
    {code : Code σ α} {id : FiberId} (hidden : ¬code.Admitted (.requests id)) :
    ∃ thread', ∀ heap, (perform heap thread keep code).2 = thread' ∧
      (perform heap thread keep code).1.behind (.requests id) = heap.behind (.requests id) := by
  cases code with
  | interrupt fiber next =>
    have own : fiber.index = id.index := (not_not.mp hidden).symm
    exact ⟨_, fun heap => ⟨rfl, requestInterrupt_hidden heap thread own⟩⟩
  | report event next =>
    exact ⟨_, fun heap => ⟨rfl, heap.report_hidden _ _ (Bool.eq_false_iff.mpr hidden)⟩⟩
  | _ => exact absurd trivial hidden

/-- A request that is hidden leaves the rest of the heap as it is, and the thread does not notice.
-/
theorem step_hidden {thread : Thread σ} {id : FiberId} {activation : Activation σ}
    (next : thread.next? = some activation) (hidden : ¬activation.Admitted (.requests id)) :
    ∃ thread', ∀ heap, (step heap thread).2 = thread' ∧
      (step heap thread).1.behind (.requests id) = heap.behind (.requests id) := by
  obtain ⟨calm, rest, control⟩ := Thread.next?_eq_some_iff.mp next
  simp only [Activation.Admitted, not_forall] at hidden
  obtain ⟨α, keep, code, holds, hidden⟩ := hidden
  have going : code.isOver = false := by
    cases code <;> first | rfl | exact absurd trivial hidden
  obtain ⟨thread', same⟩ := perform_hidden keep { thread with control := rest } hidden
  refine ⟨thread', fun heap => ?_⟩
  rw [step_of_next? heap calm control, advance_of_holds holds going]
  exact same heap

/-- A fiber whose interruption is not asked for has not been asked. -/
theorem isRequested_step {heap : Heap σ} {thread : Thread σ} {id : FiberId}
    (idle : heap.isRequested id = false) (other : ¬thread.Asks id) :
    (step heap thread).1.isRequested id = false := by
  have same : step (heap.behind (.asked id)) thread = behind (.asked id) (step heap thread) := by
    refine step_behind _ heap thread (fun activation next α keep code holds => ?_)
      fun fiber current stack next => ⟨?_, fun _ own => ?_⟩
    · cases code with
      | interrupt fiber rest =>
        exact fun own => other ⟨activation, α, keep, fiber, rest, next, holds, own.symm⟩
      | report => rfl
      | _ => trivial
    · rw [Heap.behind_asked idle]
    · exact (Veil.asked id).seen_beginFinalizing (fun _ => rfl) fiber own
  rw [Heap.behind_asked idle] at same
  rw [same]
  exact Heap.isRequested_asked _

/-- A fiber that is not interrupted in a step has not been interrupted. -/
theorem isFinalizing_step {heap : Heap σ} {thread : Thread σ} {id : FiberId}
    (idle : heap.isFinalizing id = false) (other : ¬thread.Interrupts heap id) :
    (step heap thread).1.isFinalizing id = false := by
  by_cases open' : ∀ activation, thread.next? = some activation →
      activation.Admitted (.requests id)
  · have same : step (heap.behind (.finalizing id)) thread =
        behind (.finalizing id) (step heap thread) := by
      refine step_behind _ heap thread (fun activation next α keep code holds => ?_)
        fun fiber current stack next => ⟨?_, fun due own => ?_⟩
      · have admitted := open' activation next α keep code holds
        cases code with
        | interrupt => exact admitted
        | report => rfl
        | _ => trivial
      · rw [Heap.behind_finalizing idle]
      · have apart : id.index ≠ fiber.index := fun own =>
          other ⟨fiber, current, stack, next, own.symm, due⟩
        simp only [Veil.seen_other (.finalizing id) apart]
    rw [Heap.behind_finalizing idle] at same
    rw [same]
    exact Heap.isFinalizing_finalizing _
  · obtain ⟨activation, hidden⟩ := not_forall.mp open'
    obtain ⟨next, hidden⟩ := Classical.not_imp.mp hidden
    obtain ⟨_, same⟩ := step_hidden next hidden
    rw [← Heap.isFinalizing_requests, (same heap).2, Heap.isFinalizing_requests]
    exact idle

/-- A step that does not interrupt a fiber is the same if nobody has asked for that. -/
theorem step_unasked {heap : Heap σ} {thread : Thread σ} {id : FiberId}
    (other : ¬thread.Interrupts heap id) :
    (step (heap.behind (.requests id)) thread).2 = (step heap thread).2 ∧
      (step (heap.behind (.requests id)) thread).1.behind (.requests id) =
        (step heap thread).1.behind (.requests id) := by
  by_cases open' : ∀ activation, thread.next? = some activation →
      activation.Admitted (.requests id)
  · have same : step (heap.behind (.requests id)) thread =
        behind (.requests id) (step heap thread) := by
      refine step_behind _ heap thread open'
        fun fiber current stack next => ⟨?_, fun _ own => ?_⟩
      · by_cases own : id.index = fiber.index
        · have undue : heap.shouldInterrupt fiber = false :=
            Bool.eq_false_iff.mpr fun due => other ⟨fiber, current, stack, next, own.symm, due⟩
          rw [undue, Heap.shouldInterrupt_unasked own]
        · exact Heap.shouldInterrupt_behind_of_other own
      · exact (Veil.requests id).seen_beginFinalizing (fun _ => rfl) fiber own
    rw [same]
    exact ⟨rfl, Heap.behind_requests_twice _⟩
  · obtain ⟨activation, hidden⟩ := not_forall.mp open'
    obtain ⟨next, hidden⟩ := Classical.not_imp.mp hidden
    obtain ⟨_, same⟩ := step_hidden next hidden
    refine ⟨(same _).1.trans (same _).1.symm, ?_⟩
    rw [(same _).2, (same _).2, Heap.behind_requests_twice]

end Machine

end Fibers
