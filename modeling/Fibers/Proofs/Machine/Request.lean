import Fibers.Machine.Step

/-!
# Who makes the next request

User code runs in programs, in callbacks and in four phases of a loop. In all of them it makes its
requests in the same way.

## Main result

`Machine.advance_of_holds`: whatever code runs in, its next request is carried out by
`Machine.perform`.
-/

namespace Fibers

variable {σ : Type}

/-- Whether some code has made its last request. -/
def Action.isOver {ν κ α : Type} : Action ν κ σ α → Bool
  | .done _ => true
  | .panic _ => true
  | _ => false

theorem Action.eq_of_isOver {ν κ α : Type} {code : Action ν κ σ α} (ended : code.isOver = true) :
    (∃ result, code = .done result) ∨ ∃ payload, code = .panic payload := by
  cases code with
  | done result => exact .inl ⟨result, rfl⟩
  | panic payload => exact .inr ⟨payload, rfl⟩
  | _ => cases ended

/-- Code has come to a result, or has panicked, or makes a request. -/
theorem Action.done_or_panics_or_goes {ν κ α : Type} (code : Action ν κ σ α) :
    (∃ result, code = .done result) ∨ (∃ payload, code = .panic payload) ∨
      code.isOver = false := by
  by_cases ended : code.isOver = true
  · exact (Action.eq_of_isOver ended).imp_right .inl
  · exact .inr (.inr (Bool.eq_false_iff.mpr ended))

/-- An activation runs some code; the function is the activation with other code in it. -/
inductive Activation.Holds :
    Activation σ → {α : Type} → (Code σ α → Activation σ) → Code σ α → Prop where
  | program (code : Code σ Unit) : Holds (.program code) .program code
  | callback (code : Code σ Unit) : Holds (.callback code) .callback code
  | thunk (id : FiberId) (code : Code σ Erased) (stack : List (Frame σ)) :
      Holds (.loop id (.thunk code) stack) (fun code => .loop id (.thunk code) stack) code
  | raising (id : FiberId) (code : Code σ Cause) (stack : List (Frame σ)) :
      Holds (.loop id (.raising code) stack) (fun code => .loop id (.raising code) stack) code
  | building (id : FiberId) (code : Code σ (Node σ)) (stack : List (Frame σ)) :
      Holds (.loop id (.building code) stack) (fun code => .loop id (.building code) stack) code
  | registering (id : FiberId) (callback : CallbackId) (code : Code σ Unit)
      (stack : List (Frame σ)) :
      Holds (.loop id (.registering callback code) stack)
        (fun code => .loop id (.registering callback code) stack) code

/-- What a thread does next, unless it is idle or panicking. -/
def Thread.next? (thread : Thread σ) : Option (Activation σ) :=
  match thread.panicking with
  | none => thread.control.head?
  | some _ => none

theorem Thread.next?_eq_some_iff {thread : Thread σ} {activation : Activation σ} :
    thread.next? = some activation ↔
      thread.panicking = none ∧ ∃ rest, thread.control = activation :: rest := by
  unfold Thread.next?
  cases thread.panicking with
  | none => simp [List.head?_eq_some_iff]
  | some payload => simp

/-- The next step of a thread asks for the interruption of a fiber. -/
def Thread.Asks (thread : Thread σ) (id : FiberId) : Prop :=
  ∃ (activation : Activation σ) (α : Type) (keep : Code σ α → Activation σ) (fiber : FiberId)
    (next : PUnit → Code σ α), thread.next? = some activation ∧
      activation.Holds keep (.interrupt fiber next) ∧ fiber.index = id.index

/-- The next step of a thread interrupts a fiber. -/
def Thread.Interrupts (thread : Thread σ) (heap : Heap σ) (id : FiberId) : Prop :=
  ∃ fiber current stack, thread.next? = some (.loop fiber (.node current) stack) ∧
    fiber.index = id.index ∧ heap.shouldInterrupt fiber = true

namespace Machine

/-- Whatever runs some code carries out its next request. -/
theorem advance_of_holds {activation : Activation σ} {α : Type} {keep : Code σ α → Activation σ}
    {code : Code σ α} (holds : activation.Holds keep code) (going : code.isOver = false)
    (heap : Heap σ) (thread : Thread σ) :
    advance heap thread activation = perform heap thread keep code := by
  cases holds with
  | program code | callback code | thunk id code stack | raising id code stack
  | building id code stack | registering id callback code stack =>
    cases code with
    | done | panic => cases going
    | _ => rfl

theorem step_of_next? (heap : Heap σ) {thread : Thread σ} {activation : Activation σ}
    {rest : List (Activation σ)} (calm : thread.panicking = none)
    (control : thread.control = activation :: rest) :
    step heap thread = advance heap { thread with control := rest } activation := by
  rw [step, control, calm]

section Poll

variable {heap : Heap σ} {thread : Thread σ} {id : FiberId} {current : Node σ}
  {stack : List (Frame σ)} {rest : List (Activation σ)} (calm : thread.panicking = none)
  (control : thread.control = .loop id (.node current) stack :: rest)

include calm control

/-- Unless its fiber is to be interrupted, a loop at an effect interprets it. -/
theorem step_of_undue (undue : heap.shouldInterrupt id = false) :
    step heap thread = interpret heap { thread with control := rest } id stack current := by
  rw [step_of_next? heap calm control, advance, stepLoop, undue]
  rfl

/-- The interruption of a fiber that is due takes the place of the next effect. -/
theorem step_of_due (due : heap.shouldInterrupt id = true) :
    step heap thread = beginInterruption heap { thread with control := rest } id stack current := by
  rw [step_of_next? heap calm control, advance, stepLoop, due]
  rfl

end Poll

end Machine

end Fibers
