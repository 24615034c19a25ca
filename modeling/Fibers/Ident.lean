/-!
# Identities

Fibers, async callbacks, mailboxes and executors are named by numbers, handed out in the order in
which they are made. Fibers count from one; the others count from zero.
-/

namespace Fibers

/-- The identity of a fiber. -/
structure FiberId where
  number : Nat
  deriving DecidableEq, Repr

namespace FiberId

/-- The identity as a reader sees it. -/
def render (id : FiberId) : String := "Fiber(" ++ toString id.number ++ ")"

/-- The identity with the name of its type. -/
def describe (id : FiberId) : String := "FiberId(" ++ toString id.number ++ ")"

/-- Fibers are ordered by age: the older one has the smaller number. -/
def order (a b : FiberId) : Ordering := compare a.number b.number

/-- The place of a fiber in a table of all fibers, oldest first. -/
def index (id : FiberId) : Nat := id.number - 1

/-- The fiber in the given place of a table of all fibers. -/
def ofIndex (index : Nat) : FiberId := ⟨index + 1⟩

@[simp] theorem index_ofIndex (n : Nat) : (ofIndex n).index = n := rfl

end FiberId

/-- The callback that resumes one suspended fiber. -/
structure CallbackId where
  index : Nat
  deriving DecidableEq, Repr

/-- The place where a blocked caller finds the exit of the fiber it waits for. -/
structure MailboxId where
  index : Nat
  deriving DecidableEq, Repr

/-- An execution context. -/
structure ExecutorId where
  index : Nat
  deriving DecidableEq, Repr

end Fibers
