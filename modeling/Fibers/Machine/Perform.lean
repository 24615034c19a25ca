import Fibers.Machine.Thread

/-!
# Requests of user code

`perform` carries out the next request of a piece of user code. The activation that holds the code
has been taken off its thread; `keep` puts it back around the code that is left, underneath whatever
the request begins on top of it.
-/

namespace Fibers

variable {σ α : Type}

/-- The deadline and the mailbox that code is waiting for, if that is its next request. -/
def Action.awaited? {ν κ : Type} : Action ν κ σ α → Option (MailboxId × Option Nat)
  | .wait mailbox deadline _ => some (mailbox, deadline)
  | _ => none

/-- Whether a wait is over: the latch is open or the deadline has passed. -/
def Heap.canProceed (heap : Heap σ) (mailbox : MailboxId) (deadline : Option Nat) : Bool :=
  heap.isOpen mailbox || deadline.any (· ≤ heap.now)

namespace Machine

/-- Carry out the next request of user code. -/
def perform (heap : Heap σ) (thread : Thread σ) (keep : Code σ α → Activation σ) :
    Code σ α → Heap σ × Thread σ
  | .done result => (heap, thread.push (keep (.done result)))
  | .panic payload => (heap, (thread.push (keep (.panic payload))).raise payload)
  | .get next => (heap, thread.push (keep (next heap.world)))
  | .modify change next =>
    ({ heap with world := change heap.world }, thread.push (keep (next ⟨⟩)))
  | .complete callback value next =>
    completeCallback heap (thread.push (keep (next ⟨⟩))) callback value
  | .completeLater delay callback value next =>
    ({ heap with timers := ⟨heap.now + delay, callback, value⟩ :: heap.timers },
      thread.push (keep (next ⟨⟩)))
  | .observe fiber type callback next =>
    observe heap (thread.push (keep (next ⟨⟩))) fiber (.resume type callback)
  | .poll fiber next => (heap, thread.push (keep (next (heap.poll fiber))))
  | .interrupt fiber next =>
    (requestInterrupt heap thread fiber, thread.push (keep (next ⟨⟩)))
  | .launch executor root next =>
    let id := heap.nextFiber
    start (newRoot heap executor root []) (thread.push (keep (next id))) id true
  | .launchWith executor root callback next =>
    let id := heap.nextFiber
    start (newRoot heap executor root [.call callback]) (thread.push (keep (next id))) id true
  | .submit executor root type next =>
    let id := heap.nextFiber
    let mailbox := heap.nextMailbox
    start (newRoot heap.addMailbox executor root [.answer type mailbox])
      (thread.push (keep (next mailbox))) id true
  | .wait mailbox deadline next =>
    if heap.isOpen mailbox then (heap, thread.push (keep (next (.opened (heap.slot mailbox)))))
    else if deadline.any (· ≤ heap.now) then (heap, thread.push (keep (next .timedOut)))
    else (heap, thread.push (keep (.wait mailbox deadline next)))
  | .runTask executor newest next =>
    match (heap.waiting executor).pop? newest with
    | some (task, rest) =>
      (heap.setWaiting executor rest, (thread.push (keep (next true))).run task)
    | none => (heap, thread.push (keep (next false)))
  | .discardTasks executor next =>
    let count := (heap.waiting executor).size
    (heap.setWaiting executor {}, thread.push (keep (next count)))
  | .threadName next => (heap, thread.push (keep (next thread.name)))
  | .clock next => (heap, thread.push (keep (next heap.now)))
  | .report event next =>
    (heap.report thread.id event.severity fun _ => event, thread.push (keep (next ⟨⟩)))

end Machine

end Fibers
