import Fibers.Proofs.Machine.Influence
import Fibers.Proofs.World.Meeting

/-!
# What reaches a fiber from outside

The threads of a machine run many fibers by turns. A step of one of them can reach another fiber in
three ways: it asks for its interruption, it registers an observer, or it completes a callback.

## Main results

`World.StepsAt.influence` says what one step of a thread does to a fiber that the thread does not
run: to its state (`StepsAt.touches`), to its suspensions (`StepsAt.suspension?_eq_some_iff`) and to
the point that it has reached (`StepsAt.place`).
-/

namespace Fibers

variable {σ : Type}

/-- A thread is about to register an observer of a fiber. -/
def Thread.Registers (thread : Thread σ) (heap : Heap σ) (id : FiberId) (observer : Observer σ) :
    Prop :=
  ∃ activation target, thread.next? = some activation ∧
    activation.registered? heap = some (target, observer) ∧ target.index = id.index

/-- What a step of a thread makes of the state of a suspension that it does not register. -/
def Thread.meet (thread : Thread σ) (callback : CallbackId) (state : Rendezvous σ) : Rendezvous σ :=
  match thread.next?.bind Activation.completes? with
  | some (own, value) => if own = callback then state.complete value else state
  | none => state

theorem Thread.meet_eq (thread : Thread σ) (callback : CallbackId) (state : Rendezvous σ) :
    thread.meet callback state = state ∨
      ∃ value, thread.Completes callback value ∧
        thread.meet callback state = state.complete value := by
  unfold Thread.meet
  split
  next own value completes =>
    obtain ⟨activation, next, completes⟩ := Option.bind_eq_some_iff.mp completes
    split
    next same => exact .inr ⟨value, ⟨activation, next, same ▸ completes⟩, rfl⟩
    next => exact .inl rfl
  next => exact .inl rfl

namespace World

variable {run : Nat → World σ} {n i : Nat} {thread : Thread σ} {id : FiberId}

/-! ### The state of a fiber -/

/-- A step of a thread keeps what the heap keeps for the fibers that it does not run. -/
theorem StepsAt.kept (steps : StepsAt run n i thread) (h : Run run) (other : ¬thread.Runs id)
    (knows : (run n).heap.Knows id) {fiber : FiberState σ}
    (present : (run n).heap.fiber? id = some fiber) :
    ∃ fiber', (run (n + 1)).heap.fiber? id = some fiber' ∧ fiber.Kept fiber' := by
  rw [steps.heap]
  by_cases looped : ∃ owner focus stack rest, thread.control = .loop owner focus stack :: rest
  · obtain ⟨owner, focus, stack, rest, control⟩ := looped
    have apart : id ≠ owner := by
      rintro rfl
      exact other ⟨focus, stack, rest, control⟩
    have sound := steps.replaces.sound (h.owned n) control
    have calm : Machine.Sound (run n).heap { thread with control := rest, panicking := none }
        (.loop owner focus stack) := ⟨sound.single, sound.unknown, sound.ended⟩
    obtain ⟨own, alone⟩ := calm.alone rfl
    have meets := (h.owned n).meeting (.loop owner focus stack)
      ⟨thread, List.mem_of_getElem? steps.before, control ▸ List.mem_cons_self⟩
    exact (Machine.advances_step control alone meets fun _ => (rfl : true = true)).turn.fibers
      id fiber knows apart present
  · have idle : ∀ owner focus stack rest, thread.control ≠ .loop owner focus stack :: rest :=
      fun owner focus stack rest control => looped ⟨owner, focus, stack, rest, control⟩
    exact (Machine.turn_step (run n).heap idle fun _ => False).fibers id fiber knows not_false
      present

/-- A step of a thread does not end a fiber that it does not run; it may register an observer. -/
theorem StepsAt.progress_cases (steps : StepsAt run n i thread) (h : Run run)
    (other : ¬thread.Runs id) (knows : (run n).heap.Knows id) :
    (run (n + 1)).heap.progress id = (run n).heap.progress id ∨
      ∃ observer, thread.Registers (run n).heap id observer ∧
        (run (n + 1)).heap.progress id = ((run n).heap.progress id).register observer := by
  rw [steps.progress h id]
  cases next : thread.next? with
  | none => exact .inl rfl
  | some activation =>
    dsimp only
    unfold Heap.progressAfter
    cases ends : activation.ends? with
    | some ending =>
      obtain ⟨owner, exit⟩ := ending
      obtain ⟨focus, stack, rfl⟩ := Activation.loop_of_ends? ends
      obtain ⟨_, rest, control⟩ := Thread.next?_eq_some_iff.mp next
      have mem : Activation.loop owner focus stack ∈ thread.control := control ▸ List.mem_cons_self
      have place := places_of_loop (h.owned n) (List.mem_of_getElem? steps.before) mem
      have known := ((h.owned n).placed place).1
      left
      apply if_neg
      apply knows.index_ne known
      rintro rfl
      exact other ⟨focus, stack, rest, control⟩
    | none =>
      unfold Heap.progressWith
      cases registered : activation.registered? (run n).heap with
      | none => exact .inl rfl
      | some registration =>
        obtain ⟨target, observer⟩ := registration
        dsimp only
        split
        next own => exact .inr ⟨observer, ⟨activation, target, next, registered, own⟩, rfl⟩
        next => exact .inl rfl

/-- A suspension of one fiber is not changed together with one of another fiber. -/
theorem getElem?_meet_iff {heap : Heap σ} {own callback : CallbackId}
    {f : Rendezvous σ → Rendezvous σ} {state : Rendezvous σ}
    (apart : own = callback → ∀ state, heap.suspension? callback ≠ some ⟨id, state⟩) :
    (heap.meet own f)[callback.index]? = some ⟨id, state⟩ ↔
      heap.suspension? callback = some ⟨id, state⟩ := by
  rw [Heap.getElem?_meet]
  split
  next same =>
    constructor
    · intro after
      obtain ⟨⟨owner, state'⟩, before, changed⟩ := Option.map_eq_some_iff.mp after
      cases changed
      exact absurd before (apart same state')
    · intro before
      exact absurd before (apart same state)
  next => rfl

/-- A suspension that is opened for one fiber is not one of another fiber. -/
theorem getElem?_push_iff {heap : Heap σ} {owner : FiberId} {callback : CallbackId}
    {state : Rendezvous σ} (apart : owner ≠ id) :
    (heap.suspensions.push { fiber := owner })[callback.index]? = some ⟨id, state⟩ ↔
      heap.suspension? callback = some ⟨id, state⟩ := by
  rw [Array.getElem?_push]
  split
  next last =>
    constructor
    · rintro ⟨⟩
      exact absurd rfl apart
    · intro there
      have small := (Array.getElem?_eq_some_iff.mp there).1
      exact absurd last small.ne
  next => rfl

/-- A suspension after a completion is one that was there, perhaps with the value. -/
theorem getElem?_completed_iff {heap : Heap σ} {own callback : CallbackId} {value : Erased}
    {state : Rendezvous σ} :
    (heap.completed (some (own, value)))[callback.index]? = some ⟨id, state⟩ ↔
      ∃ before, heap.suspension? callback = some ⟨id, before⟩ ∧
        (if own = callback then before.complete value else before) = state := by
  rw [Heap.completed, Heap.getElem?_meet]
  split
  next =>
    constructor
    · intro after
      obtain ⟨⟨owner, before⟩, there, changed⟩ := Option.map_eq_some_iff.mp after
      cases changed
      exact ⟨before, there, rfl⟩
    · rintro ⟨before, there, rfl⟩
      rw [there]
      rfl
  next => simp

/-- A registration meets a suspension of its own fiber. -/
theorem StepsAt.getElem?_meet_of_registering (steps : StepsAt run n i thread) (h : Run run)
    (other : ¬thread.Runs id) {owner : FiberId} {own : CallbackId} {code : Code σ Unit}
    {stack : List (Frame σ)} {rest : List (Activation σ)}
    (control : thread.control = .loop owner (.registering own code) stack :: rest)
    (f : Rendezvous σ → Rendezvous σ) (callback : CallbackId) (state : Rendezvous σ) :
    ((run n).heap.meet own f)[callback.index]? = some ⟨id, state⟩ ↔
      (run n).heap.suspension? callback = some ⟨id, state⟩ := by
  obtain ⟨suspension, present, own', _⟩ := (h.owned n).meeting _
    ⟨thread, List.mem_of_getElem? steps.before, control ▸ List.mem_cons_self⟩
  apply getElem?_meet_iff
  rintro rfl state' there
  cases present.symm.trans there
  obtain rfl : id = owner := own'
  exact other ⟨_, _, rest, control⟩

/-- A step of a thread changes the suspensions of a fiber that it does not run only by completing a
callback. -/
theorem StepsAt.suspension?_eq_some_iff (steps : StepsAt run n i thread) (h : Run run)
    (other : ¬thread.Runs id) (callback : CallbackId) (state : Rendezvous σ) :
    (run (n + 1)).heap.suspension? callback = some ⟨id, state⟩ ↔
      ∃ before, (run n).heap.suspension? callback = some ⟨id, before⟩ ∧
        thread.meet callback before = state := by
  rw [steps.suspension?_eq]
  -- Without a completion the same suspensions are left, whatever else the step does.
  have unmet (none : thread.next?.bind Activation.completes? = none) :
      ((run n).heap.suspension? callback = some ⟨id, state⟩ ↔
        ∃ before, (run n).heap.suspension? callback = some ⟨id, before⟩ ∧
          thread.meet callback before = state) := by
    simp only [Thread.meet, none, exists_eq_right]
  cases next : thread.next? with
  | none =>
    rw [← unmet (by rw [next]; rfl), Thread.suspensionsAfter]
    split
    next control calm => cases next.symm.trans (Thread.next?_eq_some_iff.mpr ⟨calm, _, control⟩)
    next control _ => exact steps.getElem?_meet_of_registering h other control _ callback state
    next => rfl
  | some top =>
    obtain ⟨calm, rest, control⟩ := Thread.next?_eq_some_iff.mp next
    have unmet (none : top.completes? = none) := unmet (by rw [next]; exact none)
    rw [Thread.suspensionsAfter, control, calm]
    dsimp only
    unfold Activation.suspensionsAfter
    split
    next owner register stack =>
      rw [← unmet rfl]
      split
      next => rfl
      next =>
        apply getElem?_push_iff
        rintro rfl
        exact other ⟨_, _, rest, control⟩
    next =>
      exact (steps.getElem?_meet_of_registering h other control _ callback state).trans (unmet rfl)
    next =>
      exact (steps.getElem?_meet_of_registering h other control _ callback state).trans (unmet rfl)
    next =>
      cases completes : top.completes? with
      | none => exact unmet completes
      | some completion =>
        have met (before : Rendezvous σ) : thread.meet callback before =
            if completion.1 = callback then before.complete completion.2 else before := by
          rw [Thread.meet, next, Option.bind_some, completes]
        simp only [met]
        exact getElem?_completed_iff

/-- A thread that completes no callback of a fiber leaves its suspensions alone. -/
theorem StepsAt.suspension?_iff (steps : StepsAt run n i thread) (h : Run run)
    (other : ¬thread.Runs id) {callback : CallbackId}
    (apart : ∀ state, (run n).heap.suspension? callback = some ⟨id, state⟩ →
      ∀ value, ¬CompletesAt run i n callback value)
    (state : Rendezvous σ) :
    (run (n + 1)).heap.suspension? callback = some ⟨id, state⟩ ↔
      (run n).heap.suspension? callback = some ⟨id, state⟩ := by
  rw [steps.suspension?_eq_some_iff h other]
  have still {before : Rendezvous σ}
      (there : (run n).heap.suspension? callback = some ⟨id, before⟩) :
      thread.meet callback before = before := by
    rcases thread.meet_eq callback before with same | ⟨value, ⟨activation, next, completes⟩, _⟩
    · exact same
    · exact absurd ⟨thread, activation, steps, next, completes⟩ (apart before there value)
  constructor
  · rintro ⟨before, there, rfl⟩
    rwa [still there]
  · intro there
    exact ⟨state, there, still there⟩

/-! ### Its place -/

/-- Where a fiber is that a step of a thread does not run: where it was, or with the value of its
callback, or nowhere. -/
inductive Reached (world' : World σ) (thread : Thread σ) (id : FiberId) (place : Place σ) :
    Prop where
  | stays (same : world'.places id = {place})
  /-- A callback that the fiber waits for is completed. Its frames go on with the value, unless its
  executor does not take them. -/
  | resumed {callback : CallbackId} {value : Erased} {stack : List (Frame σ)}
      (completes : thread.Completes callback value) (waits : place = .suspended callback stack)
      (goes : world'.places id = {.active (.node (.succeed value)) stack} ∨ world'.places id = 0)
  /-- The batch of the fiber is given up by who keeps it. -/
  | shed (sheds : thread.Sheds) (gone : world'.places id = 0)

theorem StepsAt.place (steps : StepsAt run n i thread) (h : Run run) (other : ¬thread.Runs id)
    (knows : (run n).heap.Knows id) {place : Place σ} (there : (run n).places id = {place}) :
    Reached (run (n + 1)) thread id place := by
  have meets : ∀ activation ∈ thread.control, activation.Meets (run n).heap := by
    intro activation mem
    exact (h.owned n).meeting activation ⟨thread, List.mem_of_getElem? steps.before, mem⟩
  obtain ⟨others, was, is⟩ := steps.replaces.exists_places id
  rw [steps.heap] at is
  have displaces := Machine.displaces_step other knows meets
  rw [there] at was
  generalize (Machine.held (Machine.step (run n).heap thread).1
    (Machine.step (run n).heap thread).2 id) = after at displaces is
  generalize Machine.held (run n).heap thread id = before at displaces was
  cases displaces with
  | stays same =>
    apply Reached.stays
    rw [is, same, ← was]
  | @resumed callback value stack rest completes parked held goes =>
    -- The suspension is the only place of the fiber.
    rw [held, Multiset.cons_add] at was
    obtain ⟨rfl, none⟩ := (Multiset.singleton_eq_cons_iff _).mp was
    obtain ⟨rfl, rfl⟩ := add_eq_zero.mp none
    apply Reached.resumed completes rfl
    rw [is, add_zero]
    exact goes
  | shed sheds le =>
    have le : (run (n + 1)).places id ≤ {place} := by
      rw [is, was]
      exact add_le_add_left le others
    rcases Multiset.le_singleton.mp le with gone | same
    · exact .shed sheds gone
    · exact .stays same

/-! ### All of it -/

end World

end Fibers
