import Fibers.Proofs.Machine.Control
import Fibers.Proofs.Machine.Loop

/-!
# Mail

A caller that blocks waits for a mailbox. Whoever tells it the exit posts the exit into the mailbox
and then opens it, and until it has done both it does nothing else.

## Main results

`Machine.mail_step`: what a step does to the mailboxes, and to what its thread has still to post or
to open. Apart from the call of the observer that begins it, only posting and opening do anything to
either, and user code that makes a new mailbox.

## Proof strategy

`Machine.mail` is all of a state that has to do with mail. Each operation of the interpreter leaves
it as it is.
-/

namespace Fibers

variable {σ : Type}

/-! ### Mailboxes -/

namespace Heap

@[simp] theorem mailboxes_report (heap : Heap σ) (thread : ThreadId) (severity : Severity)
    (event : Unit → Event) : (heap.report thread severity event).mailboxes = heap.mailboxes := by
  unfold report
  split <;> rfl

@[simp] theorem mailboxes_noteDefect (heap : Heap σ) (thread : ThreadId) (payload : Payload) :
    (heap.noteDefect thread payload).mailboxes = heap.mailboxes :=
  mailboxes_report _ _ _ _

theorem getElem?_updateMailbox (heap : Heap σ) (target mailbox : MailboxId)
    (f : Mailbox → Mailbox) : (heap.updateMailbox target f).mailboxes[mailbox.index]? =
      if target = mailbox then (heap.mailboxes[mailbox.index]?).map f
      else heap.mailboxes[mailbox.index]? := by
  rw [updateMailbox, Array.getElem?_modify]
  by_cases same : target = mailbox
  · rw [if_pos same, if_pos (congrArg MailboxId.index same)]
  · rw [if_neg same, if_neg fun index => same (by cases target; cases mailbox; cases index; rfl)]

end Heap

/-! ### What has to do with mail -/

/-- An activation is about to post an exit or to open a mailbox. -/
def Activation.isMail : Activation σ → Bool
  | .posting _ _ | .opening _ => true
  | _ => false

theorem Activation.Holds.isMail {activation : Activation σ} {α : Type}
    {keep : Code σ α → Activation σ} {code : Code σ α} (holds : activation.Holds keep code)
    (rest : Code σ α) : (keep rest).isMail = false := by
  cases holds <;> rfl

/-- What a thread has still to post or to open. -/
def Thread.mail (thread : Thread σ) : List (Activation σ) :=
  thread.control.filter Activation.isMail

namespace Thread

theorem mail_of_control {thread : Thread σ} {activation : Activation σ}
    {rest : List (Activation σ)} (control : thread.control = activation :: rest) :
    thread.mail = (if activation.isMail then [activation] else []) ++
      rest.filter Activation.isMail := by
  rw [mail, control, List.filter_cons]
  split <;> rfl

@[simp] theorem mail_push (thread : Thread σ) (activation : Activation σ) :
    (thread.push activation).mail =
      (if activation.isMail then [activation] else []) ++ thread.mail :=
  mail_of_control rfl

@[simp] theorem mail_raise (thread : Thread σ) (payload : Payload) :
    (thread.raise payload).mail = thread.mail := rfl

@[simp] theorem mail_run (thread : Thread σ) (task : Task σ) :
    (thread.run task).mail = thread.mail := by
  unfold Thread.run
  split <;> rfl

end Thread

/-- The next request of user code makes a mailbox. -/
def Action.submits {α : Type} : Code σ α → Bool
  | .submit _ _ _ _ => true
  | _ => false

/-- The next step of an activation makes a mailbox. -/
def Activation.submits : Activation σ → Bool
  | .program code | .callback code | .loop _ (.registering _ code) _ => code.submits
  | .loop _ (.thunk code) _ => code.submits
  | .loop _ (.raising code) _ => code.submits
  | .loop _ (.building code) _ => code.submits
  | _ => false

theorem Activation.Holds.submits {activation : Activation σ} {α : Type}
    {keep : Code σ α → Activation σ} {code : Code σ α} (holds : activation.Holds keep code) :
    activation.submits = code.submits := by
  cases holds <;> rfl

/-- What is to be posted or opened on top of an activation after its next step. -/
def Activation.mailAfter : Activation σ → List (Activation σ)
  | .posting mailbox _ => [.opening mailbox]
  | .notifying exit (.answer type mailbox :: _) => [.posting mailbox (exit.recover type).erase]
  | _ => []

/-- The mailboxes after the next step of an activation. -/
def Heap.mailboxesAfter (heap : Heap σ) : Activation σ → Array Mailbox
  | .posting mailbox exit =>
    (heap.updateMailbox mailbox fun box => { box with slot := some exit }).mailboxes
  | .opening mailbox =>
    (heap.updateMailbox mailbox fun box => { box with latch := box.latch.countDown }).mailboxes
  | activation => if activation.submits then heap.mailboxes.push {} else heap.mailboxes

theorem Activation.Holds.mailboxesAfter {activation : Activation σ} {α : Type}
    {keep : Code σ α → Activation σ} {code : Code σ α} (holds : activation.Holds keep code)
    (heap : Heap σ) : heap.mailboxesAfter activation =
      if code.submits then heap.mailboxes.push {} else heap.mailboxes := by
  cases holds <;> rfl

theorem Activation.Holds.mailAfter {activation : Activation σ} {α : Type}
    {keep : Code σ α → Activation σ} {code : Code σ α} (holds : activation.Holds keep code) :
    activation.mailAfter = [] := by
  cases holds <;> rfl

namespace Machine

/-- All that has to do with mail. -/
def mail (state : Heap σ × Thread σ) : Array Mailbox × List (Activation σ) :=
  (state.1.mailboxes, state.2.mail)

variable (heap : Heap σ) (thread : Thread σ)

/-! ### Operations -/

theorem mail_execute (executor : ExecutorId) (task : Task σ) :
    mail (execute heap thread executor task) = (heap.mailboxes, thread.mail) := by
  unfold execute
  split
  case h_2 => exact congrArg (heap.mailboxes, ·) (thread.mail_run task)
  all_goals rfl

theorem mail_start (id : FiberId) (root : Bool) :
    mail (start heap thread id root) = (heap.mailboxes, thread.mail) := by
  unfold start
  split
  next =>
    refine (mail_execute _ _ _ _).trans (congrArg (·, thread.mail) ?_)
    exact Heap.mailboxes_report _ _ _ _
  next => rfl

theorem mail_resume (id : FiberId) (value : Erased) (stack : List (Frame σ)) :
    mail (resume heap thread id value stack) = (heap.mailboxes, thread.mail) := by
  have reported := heap.mailboxes_report thread.id .trace fun _ => .fiberResumed id stack.length
  unfold resume
  split
  next => exact (mail_execute _ _ _ _).trans (congrArg (·, thread.mail) reported)
  next => exact congrArg₂ Prod.mk reported (thread.mail_run _)

theorem mail_completeCallback (callback : CallbackId) (value : Erased) :
    mail (completeCallback heap thread callback value) = (heap.mailboxes, thread.mail) := by
  unfold completeCallback
  split
  next => rfl
  next => exact mail_resume _ _ _ _ _
  next => rfl

theorem mail_completeFiber (id : FiberId) (exit : Exit Erased) :
    mail (completeFiber heap thread id exit) = (heap.mailboxes, thread.mail) := by
  unfold completeFiber
  split
  next => exact congrArg (·, thread.mail) (Heap.mailboxes_report _ _ _ _)
  next => rfl

theorem mail_observe (id : FiberId) (observer : Observer σ) :
    mail (observe heap thread id observer) = (heap.mailboxes, thread.mail) := by
  unfold observe
  split <;> rfl

theorem mailboxes_requestInterrupt (id : FiberId) :
    (requestInterrupt heap thread id).mailboxes = heap.mailboxes := by
  unfold requestInterrupt
  split
  next =>
    dsimp only
    split
    next => rfl
    next => exact Heap.mailboxes_report _ _ _ _
  next => rfl

theorem mail_notify (exit : Exit Erased) (observer : Observer σ) (rest : List (Observer σ)) :
    mail (notify heap thread exit observer) =
      (heap.mailboxes,
        (Activation.notifying exit (observer :: rest)).mailAfter ++ thread.mail) := by
  cases observer with
  | resume type callback => exact mail_completeCallback heap thread callback _
  | call callback =>
    obtain ⟨run⟩ := callback
    rfl
  | answer => rfl

/-- A request of user code makes a mailbox, if it is for a caller that will block, and does nothing
else about mail. -/
theorem mail_perform {α : Type} {keep : Code σ α → Activation σ}
    (plain : ∀ code, (keep code).isMail = false) (code : Code σ α) :
    mail (perform heap thread keep code) =
      (if code.submits then heap.mailboxes.push {} else heap.mailboxes, thread.mail) := by
  have kept (code : Code σ α) : (thread.push (keep code)).mail = thread.mail := by
    rw [Thread.mail_push, plain]
    rfl
  cases code with
  | complete callback value next =>
    exact (mail_completeCallback _ _ _ _).trans (congrArg (heap.mailboxes, ·) (kept _))
  | observe fiber type callback next =>
    exact (mail_observe _ _ _ _).trans (congrArg (heap.mailboxes, ·) (kept _))
  | interrupt fiber next =>
    exact congrArg₂ Prod.mk (mailboxes_requestInterrupt heap thread fiber) (kept _)
  | launch executor root next =>
    exact (mail_start _ _ _ _).trans (congrArg (heap.mailboxes, ·) (kept _))
  | launchWith executor root callback next =>
    exact (mail_start _ _ _ _).trans (congrArg (heap.mailboxes, ·) (kept _))
  | submit executor root type next =>
    exact (mail_start _ _ _ _).trans (congrArg (heap.mailboxes.push {}, ·) (kept _))
  | wait mailbox deadline next =>
    simp only [perform]
    split
    next => exact congrArg (heap.mailboxes, ·) (kept _)
    next => split <;> exact congrArg (heap.mailboxes, ·) (kept _)
  | runTask executor newest next =>
    simp only [perform]
    split
    next => exact congrArg (heap.mailboxes, ·) ((Thread.mail_run _ _).trans (kept _))
    next => exact congrArg (heap.mailboxes, ·) (kept _)
  | report event next =>
    exact congrArg₂ Prod.mk (Heap.mailboxes_report _ _ _ _) (kept _)
  | _ => exact congrArg (heap.mailboxes, ·) (kept _)

theorem mail_fork (parent : FiberId) (effect : Node σ) (stack : List (Frame σ)) :
    mail (fork heap thread parent effect stack) = (heap.mailboxes, thread.mail) := by
  unfold fork
  refine (mail_start _ _ _ _).trans (congrArg (·, thread.mail) ?_)
  exact Heap.mailboxes_report _ _ _ _

theorem mail_interpret (id : FiberId) (stack : List (Frame σ)) (current : Node σ) :
    mail (interpret heap thread id stack current) = (heap.mailboxes, thread.mail) := by
  cases current with
  | flatMap | fold => exact congrArg (·, thread.mail) (Heap.mailboxes_report _ _ _ _)
  | fork effect => exact mail_fork heap thread id effect stack
  | shift executor =>
    exact (mail_execute _ _ _ _).trans (congrArg (·, thread.mail) (Heap.mailboxes_report _ _ _ _))
  | access continuation =>
    simp only [interpret]
    split <;> rfl
  | _ => rfl

theorem mail_park (id : FiberId) (callback : CallbackId) (stack : List (Frame σ)) :
    mail (park heap thread id callback stack) = (heap.mailboxes, thread.mail) := by
  unfold park
  split
  next => rfl
  next => exact congrArg (·, thread.mail) (Heap.mailboxes_report _ _ _ _)

theorem mail_unwindLoop (payload : Payload) (id : FiberId) (stack : List (Frame σ))
    (focus : Focus σ) :
    mail (unwindLoop heap thread payload id stack focus) = (heap.mailboxes, thread.mail) := by
  cases focus with
  | node | value | cause => rfl
  | thunk | raising | building | registering =>
    exact congrArg (·, thread.mail) (heap.mailboxes_noteDefect thread.id payload)

/-! ### Steps -/

/-- What a step of a loop does about mail is what the request of its user code does, if it makes
one. -/
theorem mail_stepLoop (id : FiberId) (focus : Focus σ) (stack : List (Frame σ)) :
    mail (stepLoop heap thread id stack focus) =
      (heap.mailboxesAfter (.loop id focus stack), thread.mail) := by
  have turn := turns_stepLoop heap thread id stack focus
  generalize stepLoop heap thread id stack focus = after at turn ⊢
  cases turn with
  | interrupts due => exact congrArg (·, thread.mail) (Heap.mailboxes_report _ _ _ _)
  | interprets undue => exact mail_interpret heap thread id stack _
  | delivers => exact congrArg (·, thread.mail) (Heap.mailboxes_report _ _ _ _)
  | succeeds | fails => exact mail_completeFiber heap thread id _
  | handles => rfl
  | hands ended => cases ended <;> rfl
  | parks => exact mail_park heap thread id _ stack
  | panics panics =>
    rw [mail_unwindLoop]
    cases panics <;> rfl
  | requests holds going =>
    rw [holds.mailboxesAfter]
    exact mail_perform heap thread holds.isMail _

/-- What the next step of an activation does about mail. -/
theorem mail_advance (activation : Activation σ) :
    mail (advance heap thread activation) =
      (heap.mailboxesAfter activation, activation.mailAfter ++ thread.mail) := by
  have requests {α : Type} {keep : Code σ α → Activation σ} {code : Code σ α}
      (holds : activation.Holds keep code) (going : code.isOver = false) :
      mail (advance heap thread activation) =
        (heap.mailboxesAfter activation, activation.mailAfter ++ thread.mail) := by
    rw [advance_of_holds holds going, holds.mailboxesAfter, holds.mailAfter]
    exact mail_perform heap thread holds.isMail code
  cases activation with
  | program code =>
    rcases code.done_or_panics_or_goes with ⟨result, rfl⟩ | ⟨payload, rfl⟩ | going
    · rfl
    · rfl
    · exact requests (.program code) going
  | callback code =>
    rcases code.done_or_panics_or_goes with ⟨result, rfl⟩ | ⟨payload, rfl⟩ | going
    · rfl
    · rfl
    · exact requests (.callback code) going
  | posting | opening => rfl
  | notifying exit observers =>
    cases observers with
    | nil => rfl
    | cons observer rest =>
      exact mail_notify heap (thread.push (.notifying exit rest)) exit observer rest
  | draining outer =>
    simp only [advance]
    split <;> rfl
  | loop id focus stack => exact mail_stepLoop heap thread id focus stack

variable {thread} {activation : Activation σ} {rest : List (Activation σ)}

/-- What a step does about mail: it makes a mailbox, posts, or opens, or it is the call that begins
to post. -/
theorem mail_step (calm : thread.panicking = none) (control : thread.control = activation :: rest) :
    mail (step heap thread) =
      (heap.mailboxesAfter activation, activation.mailAfter ++ rest.filter Activation.isMail) := by
  rw [step_of_next? heap calm control]
  exact mail_advance heap { thread with control := rest } activation

/-- A panic does nothing about mail, but for the activation that it takes off. -/
theorem mail_step_of_panicking {payload : Payload} (panicking : thread.panicking = some payload)
    (control : thread.control = activation :: rest) :
    mail (step heap thread) = (heap.mailboxes, rest.filter Activation.isMail) := by
  rw [step_of_panicking heap panicking control]
  cases activation with
  | loop id focus stack =>
    exact mail_unwindLoop heap { thread with control := rest } payload id stack focus
  | callback | posting | opening =>
    exact congrArg (·, rest.filter Activation.isMail) (heap.mailboxes_noteDefect thread.id payload)
  | program | notifying | draining => rfl

theorem mail_step_of_idle (idle : thread.control = []) :
    mail (step heap thread) = (heap.mailboxes, []) := by
  rw [step, idle]
  cases thread.panicking with
  | none => exact congrArg (heap.mailboxes, List.filter Activation.isMail ·) idle
  | some payload =>
    simp only [crash]
    split
    next =>
      exact congrArg₂ Prod.mk (Heap.mailboxes_report _ _ _ _)
        (congrArg (List.filter Activation.isMail) idle)
    next => exact congrArg (heap.mailboxes, List.filter Activation.isMail ·) idle

end Machine

end Fibers
