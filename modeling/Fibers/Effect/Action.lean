import Fibers.Erased
import Fibers.Report.Event

/-!
# Actions

Deferred computations, continuations, handlers, registrations and callbacks are user code: they
compute, read and change the world they share, call back into the interpreter, or panic. An
`Action` is such a piece of code as data, one request at a time, so that the machine decides what
each request does and where a panic goes. `ν` is the type of effect descriptions, `κ` that of
callbacks of root fibers, `σ` the world that user code shares.
-/

namespace Fibers

/-- How a wait for a mailbox ended. -/
inductive Waited where
  /-- The deadline came first. -/
  | timedOut
  /-- The mailbox opened; this is what was in it. -/
  | opened (slot : Option (Exit Erased))

/-- User code that ends with an `α` or panics. -/
inductive Action (ν κ σ α : Type) where
  /-- The code has ended. -/
  | done (result : α)
  /-- The code panics. -/
  | panic (payload : Payload)
  /-- Read the shared world. -/
  | get (next : σ → Action ν κ σ α)
  /-- Change the shared world. -/
  | modify (change : σ → σ) (next : PUnit.{1} → Action ν κ σ α)
  /-- Complete an async callback. -/
  | complete (callback : CallbackId) (value : Erased) (next : PUnit.{1} → Action ν κ σ α)
  /-- Have a helper thread complete an async callback after some milliseconds. -/
  | completeLater (delay : Nat) (callback : CallbackId) (value : Erased)
      (next : PUnit.{1} → Action ν κ σ α)
  /-- Have a callback completed with the exit of a fiber, whose value has the given type. -/
  | observe (fiber : FiberId) (type : Ty) (callback : CallbackId)
      (next : PUnit.{1} → Action ν κ σ α)
  /-- Look at the exit of a fiber. -/
  | poll (fiber : FiberId) (next : Option (Exit Erased) → Action ν κ σ α)
  /-- Request the interruption of a fiber. -/
  | interrupt (fiber : FiberId) (next : PUnit.{1} → Action ν κ σ α)
  /-- Start a root fiber. -/
  | launch (executor : ExecutorId) (root : ν) (next : FiberId → Action ν κ σ α)
  /-- Start a root fiber whose exit goes to a callback. -/
  | launchWith (executor : ExecutorId) (root : ν) (callback : κ)
      (next : FiberId → Action ν κ σ α)
  /-- Start a root fiber whose exit, with a value of the given type, goes to a new mailbox. -/
  | submit (executor : ExecutorId) (root : ν) (type : Ty) (next : MailboxId → Action ν κ σ α)
  /-- Block until a mailbox opens, or until the clock reaches a deadline. -/
  | wait (mailbox : MailboxId) (deadline : Option Nat) (next : Waited → Action ν κ σ α)
  /-- Take the oldest or the newest task of an executor and run it; tell whether there was one. -/
  | runTask (executor : ExecutorId) (newest : Bool) (next : Bool → Action ν κ σ α)
  /-- Drop the waiting tasks of an executor; tell how many they were. -/
  | discardTasks (executor : ExecutorId) (next : Nat → Action ν κ σ α)
  /-- The name of the thread that runs the code. -/
  | threadName (next : String → Action ν κ σ α)
  /-- The time in milliseconds. -/
  | clock (next : Nat → Action ν κ σ α)
  /-- Report an event. -/
  | report (event : Event) (next : PUnit.{1} → Action ν κ σ α)

namespace Action

variable {ν κ σ α β : Type}

/-- Run one piece of code after another. -/
def bind : Action ν κ σ α → (α → Action ν κ σ β) → Action ν κ σ β
  | .done result, f => f result
  | .panic payload, _ => .panic payload
  | .get next, f => .get fun s => (next s).bind f
  | .modify change next, f => .modify change fun u => (next u).bind f
  | .complete callback value next, f => .complete callback value fun u => (next u).bind f
  | .completeLater delay callback value next, f =>
    .completeLater delay callback value fun u => (next u).bind f
  | .observe fiber type callback next, f =>
    .observe fiber type callback fun u => (next u).bind f
  | .poll fiber next, f => .poll fiber fun exit => (next exit).bind f
  | .interrupt fiber next, f => .interrupt fiber fun u => (next u).bind f
  | .launch executor root next, f => .launch executor root fun id => (next id).bind f
  | .launchWith executor root callback next, f =>
    .launchWith executor root callback fun id => (next id).bind f
  | .submit executor root type next, f =>
    .submit executor root type fun mailbox => (next mailbox).bind f
  | .wait mailbox deadline next, f => .wait mailbox deadline fun waited => (next waited).bind f
  | .runTask executor newest next, f => .runTask executor newest fun ran => (next ran).bind f
  | .discardTasks executor next, f => .discardTasks executor fun n => (next n).bind f
  | .threadName next, f => .threadName fun name => (next name).bind f
  | .clock next, f => .clock fun now => (next now).bind f
  | .report event next, f => .report event fun u => (next u).bind f

instance : Monad (Action ν κ σ) where
  pure := .done
  bind := bind

@[simp] theorem pure_eq_done (result : α) : (pure result : Action ν κ σ α) = .done result := rfl

@[simp] theorem bind_eq_bind (code : Action ν κ σ α) (f : α → Action ν κ σ β) :
    code >>= f = code.bind f := rfl

@[simp] theorem done_bind (result : α) (f : α → Action ν κ σ β) :
    (Action.done result).bind f = f result := rfl

@[simp] theorem panic_bind (payload : Payload) (f : α → Action ν κ σ β) :
    (Action.panic payload : Action ν κ σ α).bind f = .panic payload := rfl

@[simp] theorem bind_done (code : Action ν κ σ α) : code.bind .done = code := by
  induction code
  case done | panic => rfl
  all_goals rename_i ih; simp only [bind, ih]

theorem bind_bind {γ : Type} (code : Action ν κ σ α) (f : α → Action ν κ σ β)
    (g : β → Action ν κ σ γ) : (code.bind f).bind g = code.bind fun a => (f a).bind g := by
  induction code
  case done | panic => rfl
  all_goals rename_i ih; simp only [bind, ih]

/-- Read a part of the shared world. -/
def read (part : σ → α) : Action ν κ σ α := .get fun s => .done (part s)

/-- Change the shared world, with no other result. -/
def change (f : σ → σ) : Action ν κ σ Unit := .modify f .done

/-- Panic with a text. -/
def panicWith (text : String) : Action ν κ σ α := .panic (.message text)

end Action

end Fibers
