import Fibers.Proofs.Machine.Control

/-!
# Meetings

A fiber that suspends meets the callback that resumes it, and either of them may come first.

## Main results

`Machine.suspensions_step`: what a step does to the suspensions. A callback is completed by user
code that asks for it, or by the exit of a fiber that it observes, and by nothing else
(`Activation.completes?`).
-/

namespace Fibers

variable {σ : Type}

namespace Rendezvous

/-- The callback comes with its value. -/
def complete (value : Erased) : Rendezvous σ → Rendezvous σ
  | .registering => .completed value
  | .parked _ => .resumed
  | .completed first => .completed first
  | .resumed => .resumed
  | .abandoned => .abandoned

/-- The registration returns: the frames wait for the value, unless it is there. -/
def park (stack : List (Frame σ)) : Rendezvous σ → Rendezvous σ
  | .completed _ => .resumed
  | _ => .parked stack

/-- Only who has registered and not returned can find a value, and only for a value. -/
theorem complete_eq_completed {state : Rendezvous σ} {value found : Erased}
    (h : state.complete value = .completed found) :
    state = .completed found ∨ state = .registering ∧ found = value := by
  cases state with
  | registering =>
    cases h
    exact .inr ⟨rfl, rfl⟩
  | completed => exact .inl h
  | parked | resumed | abandoned => cases h

/-- Whether nobody waits for the callback any more. -/
def isOver : Rendezvous σ → Bool
  | .registering | .parked _ => false
  | .completed _ | .resumed | .abandoned => true

@[simp] theorem isOver_complete (state : Rendezvous σ) (value : Erased) :
    (state.complete value).isOver = true := by
  cases state <;> rfl

/-- A registration that returns after the callback came does not wait for it. -/
theorem isOver_park {state : Rendezvous σ} (ended : state.isOver = true)
    (meeting : state.isMeeting = true) (stack : List (Frame σ)) :
    (state.park stack).isOver = true := by
  cases state with
  | completed => rfl
  | registering => cases ended
  | parked | resumed | abandoned => cases meeting

end Rendezvous

namespace Heap

/-- Change the state of the suspension of a callback. -/
def meet (heap : Heap σ) (callback : CallbackId) (f : Rendezvous σ → Rendezvous σ) :
    Array (Suspension σ) :=
  heap.suspensions.modify callback.index fun suspension =>
    { suspension with state := f suspension.state }

/-- The suspensions after a completion, if there is one. -/
def completed (heap : Heap σ) (completion : Option (CallbackId × Erased)) :
    Array (Suspension σ) :=
  match completion with
  | some (callback, value) => heap.meet callback (.complete value)
  | none => heap.suspensions

theorem meet_of_known {heap : Heap σ} {callback : CallbackId} {suspension : Suspension σ}
    (known : heap.suspension? callback = some suspension) (f : Rendezvous σ → Rendezvous σ) :
    heap.meet callback f = (heap.setRendezvous callback (f suspension.state)).suspensions := by
  refine Array.ext_getElem? fun index => ?_
  simp only [meet, setRendezvous, Array.getElem?_modify]
  split
  next own =>
    rw [← own, show heap.suspensions[callback.index]? = _ from known]
    rfl
  next => rfl

theorem getElem?_meet (heap : Heap σ) (callback other : CallbackId)
    (f : Rendezvous σ → Rendezvous σ) :
    (heap.meet callback f)[other.index]? =
      if callback = other then
        (heap.suspension? other).map fun suspension =>
          { suspension with state := f suspension.state }
      else heap.suspension? other := by
  rw [meet, Array.getElem?_modify]
  by_cases own : callback = other
  · rw [if_pos own, if_pos (congrArg CallbackId.index own)]
    rfl
  · rw [if_neg own, if_neg fun same => own (CallbackId.ext_index same)]
    rfl

theorem meet_of_unchanged {heap : Heap σ} {callback : CallbackId} {f : Rendezvous σ → Rendezvous σ}
    (same : ∀ suspension, heap.suspension? callback = some suspension →
      f suspension.state = suspension.state) : heap.meet callback f = heap.suspensions := by
  refine Array.ext_getElem? fun index => ?_
  simp only [meet, Array.getElem?_modify]
  split
  next own =>
    rw [← own]
    cases known : heap.suspensions[callback.index]? with
    | none => rfl
    | some suspension => rw [Option.map_some, same suspension known]
  next => rfl

end Heap

/-! ### What a step is about to do -/

/-- The callback that user code completes by its next request, and the value. -/
def Action.completes? {α : Type} : Code σ α → Option (CallbackId × Erased)
  | .complete callback value _ => some (callback, value)
  | _ => none

/-- The callback that user code completes, or has completed with an exit, by its next request. -/
def Action.uses? {α : Type} : Code σ α → Option CallbackId
  | .complete callback _ _ => some callback
  | .observe _ _ callback _ => some callback
  | _ => none

namespace Activation

/-- The callback that the next step completes, and the value. -/
def completes? : Activation σ → Option (CallbackId × Erased)
  | .program code | .callback code | .loop _ (.registering _ code) _ => code.completes?
  | .loop _ (.thunk code) _ => code.completes?
  | .loop _ (.raising code) _ => code.completes?
  | .loop _ (.building code) _ => code.completes?
  | .notifying exit (.resume type own :: _) => some (own, ⟨.exit type, exit.recover type⟩)
  | _ => none

theorem Holds.completes? {activation : Activation σ} {α : Type} {keep : Code σ α → Activation σ}
    {code : Code σ α} (holds : activation.Holds keep code) :
    activation.completes? = code.completes? := by
  cases holds <;> rfl

/-- The callback that user code uses in its next request. -/
def uses? : Activation σ → Option CallbackId
  | .program code | .callback code | .loop _ (.registering _ code) _ => code.uses?
  | .loop _ (.thunk code) _ => code.uses?
  | .loop _ (.raising code) _ => code.uses?
  | .loop _ (.building code) _ => code.uses?
  | _ => none

/-- A callback is completed by user code that uses it, or with an exit that it observes. -/
theorem completes?_cases {activation : Activation σ} {own : CallbackId} {value : Erased}
    (completes : activation.completes? = some (own, value)) :
    activation.uses? = some own ∨ ∃ exit type rest,
      activation = .notifying exit (.resume type own :: rest) ∧
        value = ⟨.exit type, exit.recover type⟩ := by
  have used {α : Type} {code : Code σ α} (completes : code.completes? = some (own, value)) :
      code.uses? = some own := by
    cases code with
    | complete =>
      cases completes
      rfl
    | _ => cases completes
  cases activation with
  | program code | callback code => exact .inl (used completes)
  | loop id focus stack =>
    cases focus with
    | thunk code | raising code | building code => exact .inl (used completes)
    | registering callback code => exact .inl (used completes)
    | node | value | cause => cases completes
  | notifying exit observers =>
    cases observers with
    | nil => cases completes
    | cons observer rest =>
      cases observer with
      | resume type callback =>
        cases completes
        exact .inr ⟨exit, type, rest, rfl, rfl⟩
      | call | answer => cases completes
  | posting | opening | draining => cases completes

/-- A callback observes an exit only if user code uses it. -/
theorem uses?_of_registered? {heap : Heap σ} {activation : Activation σ} {target : FiberId}
    {type : Ty} {own : CallbackId}
    (registered : activation.registered? heap = some (target, .resume type own)) :
    activation.uses? = some own := by
  have used {α : Type} {code : Code σ α}
      (registered : code.registered? heap = some (target, .resume type own)) :
      code.uses? = some own := by
    cases code with
    | observe =>
      simp only [Action.registered?] at registered
      split at registered
      next =>
        cases registered
        rfl
      next => cases registered
    | launchWith | submit => cases registered
    | _ => cases registered
  cases activation with
  | program code | callback code => exact used registered
  | loop id focus stack =>
    cases focus with
    | thunk code | raising code | building code => exact used registered
    | registering callback code => exact used registered
    | node | value | cause => cases registered
  | notifying | posting | opening | draining => cases registered

/-- The suspensions after a step of an activation. -/
def suspensionsAfter (heap : Heap σ) : Activation σ → Array (Suspension σ)
  | .loop id (.node (.async _)) _ =>
    if heap.shouldInterrupt id then heap.suspensions else heap.suspensions.push { fiber := id }
  | .loop _ (.registering own (.done _)) stack => heap.meet own (.park stack)
  | .loop _ (.registering own (.panic _)) _ => heap.meet own fun _ => .abandoned
  | activation => heap.completed activation.completes?

/-- A request changes the suspensions only by what it completes. -/
theorem Holds.suspensionsAfter {activation : Activation σ} {α : Type}
    {keep : Code σ α → Activation σ} {code : Code σ α} (holds : activation.Holds keep code)
    (going : code.isOver = false) (heap : Heap σ) :
    activation.suspensionsAfter heap = heap.completed code.completes? := by
  cases holds with
  | registering id callback code stack =>
    cases code with
    | done | panic => cases going
    | _ => rfl
  | _ => rfl

end Activation

/-- The suspensions after a step of a thread. A panic ends the registration that it reaches. -/
def Thread.suspensionsAfter (thread : Thread σ) (heap : Heap σ) : Array (Suspension σ) :=
  match thread.control, thread.panicking with
  | activation :: _, none => activation.suspensionsAfter heap
  | .loop _ (.registering callback _) _ :: _, some _ => heap.meet callback fun _ => .abandoned
  | _, _ => heap.suspensions

namespace Machine

variable (heap : Heap σ) (thread : Thread σ)

/-! ### Operations -/

theorem suspensions_completeCallback (callback : CallbackId) (value : Erased) :
    (completeCallback heap thread callback value).1.suspensions =
      heap.meet callback (.complete value) := by
  cases known : heap.suspension? callback with
  | none =>
    rw [completeCallback, known]
    exact (Heap.meet_of_unchanged fun _ present => nomatch known.symm.trans present).symm
  | some suspension =>
    obtain ⟨fiber, state⟩ := suspension
    cases state with
    | registering =>
      rw [completeCallback, known]
      exact (Heap.meet_of_known known (.complete value)).symm
    | parked stack =>
      rw [completeCallback, known]
      refine (executes_resume _ thread fiber value stack).suspensions.trans ?_
      exact (Heap.meet_of_known known (.complete value)).symm
    | completed | resumed | abandoned =>
      rw [completeCallback, known]
      refine (Heap.meet_of_unchanged fun suspension present => ?_).symm
      cases known.symm.trans present
      rfl

theorem suspensions_start {fiber : FiberState σ} {effect : Node σ}
    (seed : fiber.seed = some effect) (root : Bool) :
    (start (heap.addFiber fiber) thread heap.nextFiber root).1.suspensions = heap.suspensions :=
  (executes_start heap thread seed root).suspensions

theorem suspensions_requestInterrupt (id : FiberId) :
    (requestInterrupt heap thread id).suspensions = heap.suspensions := by
  unfold requestInterrupt
  split
  next =>
    dsimp only
    split
    next => rfl
    next => exact (Heap.tables_report _ _ _ _).2
  next => rfl

theorem suspensions_observe (id : FiberId) (observer : Observer σ) :
    (observe heap thread id observer).1.suspensions = heap.suspensions := by
  unfold observe
  split <;> rfl

theorem suspensions_completeFiber (id : FiberId) (exit : Exit Erased) :
    (completeFiber heap thread id exit).1.suspensions = heap.suspensions := by
  unfold completeFiber
  split
  next => exact (Heap.tables_report _ _ _ _).2
  next => rfl

/-- A request of user code completes the callback that it is for. -/
theorem suspensions_perform {α : Type} (keep : Code σ α → Activation σ) (code : Code σ α) :
    (perform heap thread keep code).1.suspensions = heap.completed code.completes? := by
  cases code with
  | complete callback value next =>
    exact suspensions_completeCallback heap (thread.push (keep (next ⟨⟩))) callback value
  | observe fiber type callback next =>
    exact suspensions_observe heap (thread.push (keep (next ⟨⟩))) fiber (.resume type callback)
  | interrupt fiber next => exact suspensions_requestInterrupt heap thread fiber
  | launch executor root next =>
    exact suspensions_start heap (thread.push (keep (next heap.nextFiber))) rfl true
  | launchWith executor root callback next =>
    exact suspensions_start heap (thread.push (keep (next heap.nextFiber))) rfl true
  | submit executor root type next =>
    exact suspensions_start heap.addMailbox (thread.push (keep (next heap.nextMailbox))) rfl true
  | wait mailbox deadline next =>
    rw [perform]
    split
    · rfl
    · split <;> rfl
  | runTask executor newest next =>
    rw [perform]
    split <;> rfl
  | report event next => exact (heap.tables_report thread.id event.severity _).2
  | _ => rfl

/-! ### Steps -/

theorem suspensions_interpret (id : FiberId) (stack : List (Frame σ)) {current : Node σ}
    (other : ∀ register, current ≠ .async register) :
    (interpret heap thread id stack current).1.suspensions = heap.suspensions := by
  cases current with
  | async register => exact absurd rfl (other register)
  | flatMap | fold => exact (heap.tables_report thread.id _ _).2
  | fork effect =>
    obtain ⟨event, reported, child, rfl, _, seed, _, _, forked⟩ :=
      exists_fork_eq heap thread id effect stack
    rw [interpret, forked]
    exact (suspensions_start _ _ seed false).trans (heap.tables_report thread.id _ _).2
  | shift executor =>
    refine (executes_execute _ thread executor _).suspensions.trans ?_
    exact (Heap.tables_report _ _ _ _).2
  | access continuation =>
    rw [interpret]
    split <;> rfl
  | _ => rfl

theorem suspensions_unwindLoop (payload : Payload) (id : FiberId) (stack : List (Frame σ))
    (focus : Focus σ) :
    (unwindLoop heap thread payload id stack focus).1.suspensions =
      match focus with
      | .registering callback _ => heap.meet callback fun _ => .abandoned
      | _ => heap.suspensions := by
  have noted : (heap.noteDefect thread.id payload).suspensions = heap.suspensions :=
    (Heap.tables_report _ _ _ _).2
  cases focus with
  | node | value | cause => rfl
  | thunk | raising | building => exact noted
  | registering callback code =>
    simp only [unwindLoop, Heap.meet, ← noted]
    rfl

theorem suspensions_park (id : FiberId) (callback : CallbackId) (stack : List (Frame σ)) :
    (park heap thread id callback stack).1.suspensions = heap.meet callback (.park stack) := by
  have reported (state : Rendezvous σ) :
      ((heap.setRendezvous callback state).report thread.id .trace
        fun _ => .fiberSuspended id).suspensions =
          (heap.setRendezvous callback state).suspensions :=
    (Heap.tables_report _ _ _ _).2
  cases known : heap.suspension? callback with
  | none =>
    rw [park, known]
    refine (reported _).trans ?_
    rw [Heap.meet_of_unchanged fun _ present => by cases known.symm.trans present]
    refine Array.ext_getElem? fun index => ?_
    simp only [Heap.setRendezvous, Array.getElem?_modify]
    split
    next own =>
      rw [← own, show heap.suspensions[callback.index]? = _ from known]
      rfl
    next => rfl
  | some suspension =>
    obtain ⟨fiber, state⟩ := suspension
    cases state with
    | completed =>
      rw [park, known]
      exact (Heap.meet_of_known known (.park stack)).symm
    | registering | parked | resumed | abandoned =>
      rw [park, known]
      exact (reported _).trans (Heap.meet_of_known known (.park stack)).symm

theorem suspensions_stepLoop (id : FiberId) (stack : List (Frame σ)) (focus : Focus σ) :
    (stepLoop heap thread id stack focus).1.suspensions =
      (Activation.loop id focus stack).suspensionsAfter heap := by
  have turn := turns_stepLoop heap thread id stack focus
  generalize stepLoop heap thread id stack focus = next at turn ⊢
  cases turn with
  | @interrupts current _ due =>
    refine ((Heap.tables_report _ _ _ _).2).trans ?_
    cases current <;> simp [Activation.suspensionsAfter, Activation.completes?, Heap.completed,
      Heap.updateFlags, Heap.updateFiber, due]
  | @interprets current _ undue =>
    by_cases suspends : ∃ register, current = .async register
    · obtain ⟨register, rfl⟩ := suspends
      simp only [Activation.suspensionsAfter, undue, Bool.false_eq_true, if_false]
      rfl
    · have other := not_exists.mp suspends
      rw [suspensions_interpret heap thread id stack other]
      cases current with
      | async register => exact absurd rfl (other register)
      | _ => rfl
  | delivers => exact (heap.tables_report thread.id _ _).2
  | succeeds | fails => exact suspensions_completeFiber heap thread id _
  | handles => rfl
  | hands ended => cases ended <;> rfl
  | parks => exact suspensions_park heap thread id _ stack
  | panics panics => cases panics <;> exact suspensions_unwindLoop heap thread _ id stack _
  | requests holds going =>
    exact (suspensions_perform heap thread _ _).trans (holds.suspensionsAfter going heap).symm

theorem suspensions_advance (activation : Activation σ) :
    (advance heap thread activation).1.suspensions = activation.suspensionsAfter heap := by
  cases activation with
  | program code =>
    cases code with
    | done => rfl
    | _ => exact suspensions_perform heap thread _ _
  | callback code =>
    cases code with
    | done => rfl
    | _ => exact suspensions_perform heap thread _ _
  | loop id focus stack => exact suspensions_stepLoop heap thread id stack focus
  | notifying exit observers =>
    cases observers with
    | nil => rfl
    | cons observer rest =>
      cases observer with
      | resume type callback => exact suspensions_completeCallback heap _ callback _
      | call callback =>
        obtain ⟨run⟩ := callback
        rfl
      | answer => rfl
  | draining outer =>
    simp only [advance]
    split <;> rfl
  | posting | opening => rfl

/-- What a step of a thread does to the suspensions. -/
theorem suspensions_step :
    (step heap thread).1.suspensions = thread.suspensionsAfter heap := by
  obtain ⟨id, name, role, pending, control, panicking⟩ := thread
  cases control with
  | nil =>
    cases panicking with
    | none => rfl
    | some payload =>
      simp only [step, crash]
      split
      next => exact (Heap.tables_report _ _ _ _).2
      next => rfl
  | cons activation rest =>
    cases panicking with
    | none => exact suspensions_advance heap _ activation
    | some payload =>
      cases activation with
      | loop fiber focus stack =>
        refine (suspensions_unwindLoop heap _ payload fiber stack focus).trans ?_
        cases focus <;> rfl
      | callback | posting | opening => exact (Heap.tables_report _ _ _ _).2
      | program | notifying | draining => rfl

end Machine

end Fibers
