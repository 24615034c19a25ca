/-!
# Countdown latches

A latch opens once it has been counted down as often as it was made for. Waiting is not a function
on latches: a waiter is blocked exactly while the latch is shut.
-/

namespace Fibers

/-- The number of counts still missing. -/
structure Latch where
  remaining : Nat
  deriving DecidableEq, Repr

namespace Latch

/-- Count down once. An open latch stays open. -/
def countDown (latch : Latch) : Latch := ⟨latch.remaining - 1⟩

/-- Count down several times. -/
def countDownBy (latch : Latch) (times : Nat) : Latch := times.repeat countDown latch

def isOpen (latch : Latch) : Bool := latch.remaining == 0

/-- The latch as a reader sees it. -/
def describe (latch : Latch) : String :=
  "CountDownLatch \x7b count: " ++ toString latch.remaining ++ " \x7d"

/-- Something done with a latch. -/
inductive Exercise where
  | countDown
  /-- Count down from several threads at once. -/
  | threads (count : Nat)
  | isOpen
  | describe
  /-- Wait while nobody counts down. -/
  | waitAlone
  /-- Wait while others count down as often as it takes. -/
  | wait
  deriving DecidableEq, Repr

/-- What an exercise shows. -/
inductive Finding where
  | count (remaining : Nat)
  | flag (value : Bool)
  | text (value : String)
  deriving DecidableEq, Repr

/-- Do one exercise. -/
def exercise (latch : Latch) : Exercise → Latch × Finding
  | .countDown => (latch.countDown, .count latch.countDown.remaining)
  | .threads count => (latch.countDownBy count, .count (latch.countDownBy count).remaining)
  | .isOpen => (latch, .flag latch.isOpen)
  | .describe => (latch, .text latch.describe)
  | .waitAlone => (latch, .flag latch.isOpen)
  | .wait => (⟨0⟩, .count 0)

/-- Do exercises one after another. -/
def exerciseAll (latch : Latch) : List Exercise → List Finding
  | [] => []
  | first :: rest =>
    let (latch, finding) := latch.exercise first
    finding :: exerciseAll latch rest

theorem isOpen_countDown (latch : Latch) :
    latch.countDown.isOpen = true ↔ latch.remaining ≤ 1 := by
  simp [countDown, isOpen]; omega

@[simp] theorem remaining_countDownBy (latch : Latch) (times : Nat) :
    (latch.countDownBy times).remaining = latch.remaining - times := by
  induction times with
  | zero => rfl
  | succ n ih =>
    show (countDown (n.repeat countDown latch)).remaining = _
    have : (n.repeat countDown latch).remaining = latch.remaining - n := ih
    simp [countDown, this]; omega

end Latch

end Fibers
