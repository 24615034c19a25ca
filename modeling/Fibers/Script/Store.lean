import Fibers.Datum
import Fibers.Effect.Node
import Fibers.Queue

/-!
# The world of a script

The code of a script shares a log, named counters, named slots for values, and named queues of
async callbacks that wait to be completed. `Store` holds them, together with the `Outcome` of the
step that was run last, and the functions below are the pieces of user code that use them.
-/

namespace Fibers.Script

/-- Replace the value of a key in a list of pairs, or add the key at the end. -/
def assign {α : Type} (entries : List (String × α)) (key : String) (value : α) :
    List (String × α) :=
  match entries with
  | [] => [(key, value)]
  | (other, old) :: rest =>
    if other = key then (key, value) :: rest else (other, old) :: assign rest key value

theorem lookup_assign_self {α : Type} (entries : List (String × α)) (key : String) (value : α) :
    (assign entries key value).lookup key = some value := by
  induction entries with
  | nil => simp [assign]
  | cons entry rest ih =>
    obtain ⟨other, old⟩ := entry
    by_cases h : other = key
    · simp [assign, h]
    · have differs : (key == other) = false := by simpa using fun e : key = other => h e.symm
      rw [assign, if_neg h, List.lookup_cons, differs]
      exact ih

/-- What a script can ask about a fiber. -/
structure FiberInfo where
  display : String
  exit : Option (Exit Datum)

/-- The result of one step. -/
inductive Outcome where
  /-- The step gives nothing. -/
  | nothing
  | flag (value : Bool)
  | count (value : Nat)
  | exit (value : Exit Datum)
  | info (value : FiberInfo)
  /-- The step panicked. -/
  | panicked (message : String)

/-- What the code of a script shares. -/
structure Store where
  /-- The lines logged since the log was last taken. -/
  log : Array String := #[]
  counters : List (String × Nat) := []
  slots : List (String × Datum) := []
  callbacks : List (String × Queue CallbackId) := []
  /-- The result of the step that was run last. -/
  outcome : Outcome := .nothing

namespace Store

instance : Inhabited Store := ⟨{}⟩

def counter (store : Store) (name : String) : Nat := (store.counters.lookup name).getD 0

def tick (store : Store) (name : String) : Store :=
  { store with counters := assign store.counters name (store.counter name + 1) }

def put (store : Store) (slot : String) (value : Datum) : Store :=
  { store with slots := assign store.slots slot value }

def forget (store : Store) (slot : String) : Store :=
  { store with slots := store.slots.filter (·.1 ≠ slot) }

/-- The fiber held by a slot. -/
def fiberIn? (store : Store) (slot : String) : Option FiberId :=
  match store.slots.lookup slot with
  | some (.fiber id) => some id
  | _ => none

def callbacksOf (store : Store) (name : String) : Queue CallbackId :=
  (store.callbacks.lookup name).getD {}

def keep (store : Store) (name : String) (callback : CallbackId) : Store :=
  { store with
    callbacks := assign store.callbacks name ((store.callbacksOf name).push callback) }

end Store

/-- User code of a script. -/
abbrev Routine (α : Type) : Type := Code Store α

namespace Routine

/-- Add a line to the log. -/
def log (line : String) : Routine Unit :=
  Action.change fun store => { store with log := store.log.push line }

/-- Add one to a counter and read it. -/
def tick (name : String) : Routine Nat :=
  .modify (·.tick name) fun _ => Action.read (·.counter name)

/-- Put a value into a slot. -/
def put (slot : String) (value : Datum) : Routine Unit := Action.change (·.put slot value)

/-- Keep an async callback for later. -/
def keep (name : String) (callback : CallbackId) : Routine Unit :=
  Action.change (·.keep name callback)

/-- Take the oldest callback that is kept under a name. -/
def takeCallback (name : String) : Routine (Option CallbackId) :=
  .get fun store =>
    match (store.callbacksOf name).popFront? with
    | some (callback, rest) =>
      .modify (fun store => { store with callbacks := assign store.callbacks name rest })
        fun _ => .done (some callback)
    | none => .done none

/-- Complete the oldest callback that is kept under a name; tell whether there was one. -/
def completeKept (name : String) (value : Datum) : Routine Bool :=
  (takeCallback name).bind fun
    | some callback => .complete callback ⟨.datum, value⟩ fun _ => .done true
    | none => .done false

/-- Run up to a number of waiting tasks of an executor one after another, including those added
meanwhile; count them. -/
def drain (executor : ExecutorId) (newest : Bool) : Nat → Nat → Routine Nat
  | 0, count => .done count
  | limit + 1, count =>
    .runTask executor newest fun ran =>
      if ran then drain executor newest limit (count + 1) else .done count

end Routine

end Fibers.Script
