import Fibers.Proofs.Machine.Meeting
import Fibers.Proofs.World.Observers

/-!
# Meetings in a run

What the threads of a machine do to one suspension, and when a fiber that waits for the exit of
another one gets it.

## Main results

`World.Run.turns`: the state of a suspension changes only if its callback is completed or if its
registration ends. `World.CallsAt.exit_of_sole`: the exit that comes to a callback is that of the
fiber that the callback was used for. `World.RegistersAt.told`: who awaits the exit of a fiber that
has ended is told it by a thread that is about to, or has been told.
-/

namespace Fibers

variable {σ : Type}

/-! ### Histories -/

namespace History

variable {ε : Type} {happens : Nat → ε → Prop} {first last : Nat} {events : List ε} {event : ε}

theorem exists_of_mem (history : History happens first last events) (mem : event ∈ events) :
    ∃ n, first ≤ n ∧ n < last ∧ happens n event := by
  induction history with
  | empty => cases mem
  | quiet before none ih =>
    obtain ⟨n, low, high, now⟩ := ih mem
    exact ⟨n, low, Nat.lt_succ_of_lt high, now⟩
  | @event last events _ before now alone ih =>
    rcases List.mem_append.mp mem with old | new
    · obtain ⟨n, low, high, now⟩ := ih old
      exact ⟨n, low, Nat.lt_succ_of_lt high, now⟩
    · obtain rfl := List.mem_singleton.mp new
      have low : first ≤ last := by
        clear ih now alone mem
        induction before with
        | empty => exact le_rfl
        | quiet _ _ ih | event _ _ _ ih => exact Nat.le_succ_of_le ih
      exact ⟨last, low, Nat.lt_succ_self last, now⟩

theorem mem_of_happens (history : History happens first last events) {n : Nat} (low : first ≤ n)
    (high : n < last) (now : happens n event) : event ∈ events := by
  induction history with
  | empty => exact absurd low (Nat.not_le.mpr high)
  | quiet before none ih =>
    rcases Nat.lt_succ_iff_lt_or_eq.mp high with old | rfl
    · exact ih old
    · exact absurd now (none event)
  | event before _ alone ih =>
    rcases Nat.lt_succ_iff_lt_or_eq.mp high with old | rfl
    · exact List.mem_append_left _ (ih old)
    · exact List.mem_append_right _ (List.mem_singleton.mpr (alone event now))

end History

namespace World

variable {run : Nat → World σ} {id : FiberId} {n i : Nat} {thread : Thread σ}

/-! ### Loops that take a step -/

/-- There is no loop on a thread that panics. -/
def Tame (run : Nat → World σ) : Prop := ∀ n, ∀ thread ∈ (run n).threads, thread.Tame

theorem Run.tame (h : Run run) (fresh : (run 0).Fresh)
    (willing : ∀ n executor, (run n).heap.refusal? executor = none) : Tame run := by
  intro n
  induction n with
  | zero =>
    rintro thread known - activation rest top
    cases (fresh.threads thread known).2.symm.trans top
  | succ n ih =>
    intro thread known
    obtain ⟨i, known⟩ := List.getElem?_of_mem known
    rcases h.get_cases known with old | commences | ⟨before, steps, rfl⟩
    · exact ih thread (List.mem_of_getElem? old)
    · exact commences.tame
    · have old := List.mem_of_getElem? steps.before
      have nested := nested_of_reachable (h.reachable n) before old
      exact Machine.tame_step (willing n) (steps.steady h) nested (ih before old)

theorem Tame.next? (tame : Tame run) (known : thread ∈ (run n).threads) {focus : Focus σ}
    {stack : List (Frame σ)} {rest : List (Activation σ)}
    (control : thread.control = .loop id focus stack :: rest) :
    thread.next? = some (.loop id focus stack) := by
  refine Thread.next?_eq_some_iff.mpr ⟨?_, rest, control⟩
  cases panicking : thread.panicking with
  | none => rfl
  | some payload =>
    obtain ⟨code, own | own⟩ := tame n thread known (by rw [panicking]; rfl) _ rest control
    · cases own
    · cases own

variable {focus focus' : Focus σ} {stack stack' : List (Frame σ)}

/-- A loop stays where it is unless it is on top of the thread that takes a step. -/
theorem StepsAt.stays_or_tops (steps : StepsAt run n i thread) (h : Run run)
    (place : (run n).places id = {.active focus stack}) (busy : ∀ current, focus ≠ .node current) :
    (run (n + 1)).places id = {.active focus stack} ∨
      ∃ rest, thread.control = .loop id focus stack :: rest := by
  obtain ⟨holder, known, mem⟩ := exists_loop busy (place ▸ Multiset.mem_singleton_self _)
  obtain ⟨j, known'⟩ := List.getElem?_of_mem known
  by_cases own : i = j
  · subst own
    cases known'.symm.trans steps.before
    cases control : thread.control with
    | nil =>
      rw [control] at mem
      cases mem
    | cons top rest =>
      rw [control] at mem
      rcases List.mem_cons.mp mem with rfl | under
      · exact .inr ⟨rest, rfl⟩
      · -- What is not on top stays on the thread.
        obtain ⟨begun, own, _, _, control'⟩ := Machine.control_step (steps.steady h) control
        refine .inl (places_of_loop (h.owned (n + 1)) (List.mem_of_getElem? steps.after) ?_)
        rw [control']
        exact List.mem_append_right _ (List.mem_append_right _ under)
  · have after := (steps.elsewhere own).trans known'
    exact .inl (places_of_loop (h.owned (n + 1)) (List.mem_of_getElem? after) mem)

/-- A loop stays where it is unless it is what the thread that takes a step does next. -/
theorem StepsAt.stays_or_leads (steps : StepsAt run n i thread) (h : Run run) (tame : Tame run)
    (place : (run n).places id = {.active focus stack}) (busy : ∀ current, focus ≠ .node current) :
    (run (n + 1)).places id = {.active focus stack} ∨
      thread.next? = some (.loop id focus stack) := by
  refine (steps.stays_or_tops h place busy).imp_right ?_
  rintro ⟨rest, control⟩
  exact tame.next? (List.mem_of_getElem? steps.before) control

/-- If no thread takes a step, a loop stays where it is. -/
theorem Rests.places_eq (rests : Rests (run n).threads (run (n + 1)).threads) (h : Run run)
    (place : (run n).places id = {.active focus stack}) (busy : ∀ current, focus ≠ .node current) :
    (run (n + 1)).places id = {.active focus stack} := by
  obtain ⟨holder, known, mem⟩ := exists_loop busy (place ▸ Multiset.mem_singleton_self _)
  obtain ⟨j, known'⟩ := List.getElem?_of_mem known
  have after := rests.stays known' (List.ne_nil_of_mem mem)
  exact places_of_loop (h.owned (n + 1)) (List.mem_of_getElem? after) mem

/-- If no thread takes a step of the loop, it stays where it is. -/
theorem Run.places_of_still (h : Run run) (tame : Tame run)
    (place : (run n).places id = {.active focus stack}) (busy : ∀ current, focus ≠ .node current)
    (other : ∀ i thread, StepsAt run n i thread → thread.next? ≠ some (.loop id focus stack)) :
    (run (n + 1)).places id = {.active focus stack} := by
  rcases h.steps_or_rests n with ⟨i, thread, steps⟩ | ⟨_, _, rests⟩
  · exact (steps.stays_or_leads h tame place busy).resolve_right (other i thread steps)
  · exact rests.places_eq h place busy

/-- A loop comes to a new focus, other than a node, only in a step of its thread. -/
theorem Run.steps_of_changes (h : Run run) (tame : Tame run)
    (before : (run n).places id = {.active focus stack})
    (after : (run (n + 1)).places id = {.active focus' stack'})
    (busy : ∀ current, focus' ≠ .node current)
    (changed : Place.active focus' stack' ≠ .active focus stack) :
    ∃ i thread, StepsAt run n i thread ∧ thread.next? = some (.loop id focus stack) := by
  have changed : (run (n + 1)).places id ≠ (run n).places id := by
    rw [before, after]
    exact fun same => changed (Multiset.singleton_inj.mp same)
  obtain ⟨holder, known, mem⟩ := exists_loop busy (after ▸ Multiset.mem_singleton_self _)
  -- The loop was not there before with its new focus.
  have new {thread : Thread σ} (old : thread ∈ (run n).threads) :
      .loop id focus' stack' ∉ thread.control := fun there =>
    changed (after.trans (places_of_loop (h.owned n) old there).symm)
  obtain ⟨i, known⟩ := List.getElem?_of_mem known
  rcases h.get_cases known with old | commences | ⟨thread, steps, rfl⟩
  · exact absurd mem (new (List.mem_of_getElem? old))
  · rcases commences.cases_of_mem mem with ⟨_, ⟨⟩⟩ | ⟨_, current, _, same⟩ | ⟨_, ⟨⟩⟩
    cases same
    exact absurd rfl (busy current)
  · have old := List.mem_of_getElem? steps.before
    refine ⟨i, thread, steps, ?_⟩
    cases control : thread.control with
    | nil =>
      rw [Machine.control_step_of_idle _ control] at mem
      cases mem
    | cons top rest =>
      obtain ⟨begun, own, fresh, left, control'⟩ :=
        Machine.control_step (steps.steady h) control
      rw [control', List.mem_append, List.mem_append] at mem
      generalize thread.announced? (run n).heap = announced at fresh
      rcases mem with new' | own' | under
      · -- A batch that begins is about to poll.
        cases fresh with
        | loop =>
          rcases List.mem_cons.mp new' with same | other
          · cases same
            exact absurd rfl (busy _)
          · cases List.mem_singleton.mp other
        | nothing | notifying | callback | posting => simp at new'
      · cases left with
        | @loop id' focus₀ _ stack₀ _ =>
          cases List.mem_singleton.mp own'
          have there := places_of_loop (h.owned n) old (control ▸ List.mem_cons_self)
          cases Multiset.singleton_inj.mp (before.symm.trans there)
          exact tame.next? old control
        | gone | program | callback | opening | notifying => simp at own'
      · exact absurd (control ▸ List.mem_cons_of_mem _ under) (new old)

/-! ### Suspensions -/

variable {callback : CallbackId} {known : Suspension σ} {state state' : Rendezvous σ}
  {value : Erased}

/-- A thread completes a callback with a value. -/
def CompletesAt (run : Nat → World σ) (i n : Nat) (callback : CallbackId) (value : Erased) : Prop :=
  ∃ thread activation, StepsAt run n i thread ∧ thread.next? = some activation ∧
    activation.completes? = some (callback, value)

/-- What a step of a thread may do to the state of a suspension: nothing, or its callback is
completed, or its registration ends. -/
inductive Turns (run : Nat → World σ) (i n : Nat) (callback : CallbackId) (fiber : FiberId)
    (state : Rendezvous σ) : Rendezvous σ → Prop where
  | still : Turns run i n callback fiber state state
  | completed {value : Erased} (completes : CompletesAt run i n callback value) :
      Turns run i n callback fiber state (state.complete value)
  | ended {thread : Thread σ} {code : Code σ Unit} {stack : List (Frame σ)}
      {state' : Rendezvous σ} (meeting : state.isMeeting = true) (steps : StepsAt run n i thread)
      (next : thread.next? = some (.loop fiber (.registering callback code) stack))
      (parks : state' = state.park stack ∨ state' = .abandoned) :
      Turns run i n callback fiber state state'

theorem StepsAt.suspension?_eq (steps : StepsAt run n i thread) (callback : CallbackId) :
    (run (n + 1)).heap.suspension? callback =
      (thread.suspensionsAfter (run n).heap)[callback.index]? := by
  rw [Heap.suspension?, steps.heap, Machine.suspensions_step]

/-- An asynchronous effect is registered with the next callback. -/
theorem StepsAt.places_of_async (steps : StepsAt run n i thread) (h : Run run)
    {register : CallbackId → Code σ Unit} {stack : List (Frame σ)}
    (next : thread.next? = some (.loop id (.node (.async register)) stack))
    (undue : (run n).heap.shouldInterrupt id = false) :
    (run (n + 1)).places id = {.active (.registering (run n).heap.nextCallback
      (register (run n).heap.nextCallback)) stack} := by
  obtain ⟨calm, rest, control⟩ := Thread.next?_eq_some_iff.mp next
  apply places_of_loop (h.owned (n + 1)) (List.mem_of_getElem? steps.after)
  rw [Machine.step_of_undue calm control undue]
  exact List.mem_cons_self

/-- Whose registration returns goes on with what is kept for it, or leaves the frames. -/
theorem StepsAt.parks (steps : StepsAt run n i thread) (h : Run run) {stack : List (Frame σ)}
    (next : thread.next? = some (.loop id (.registering callback (.done ())) stack))
    (present : (run n).heap.suspension? callback = some ⟨id, state⟩) :
    (run (n + 1)).heap.suspension? callback = some ⟨id, state.park stack⟩ ∧
      ∀ value, state = .completed value →
        (run (n + 1)).places id = {.active (.value value) stack} := by
  obtain ⟨calm, rest, control⟩ := Thread.next?_eq_some_iff.mp next
  constructor
  · rw [steps.suspension?_eq, Thread.suspensionsAfter, control, calm]
    simp only [Activation.suspensionsAfter]
    rw [Heap.getElem?_meet, if_pos rfl, present]
    rfl
  · rintro value rfl
    apply places_of_loop (h.owned (n + 1)) (List.mem_of_getElem? steps.after)
    rw [Machine.step_of_next? _ calm control]
    simp only [Machine.advance, Machine.stepLoop, Machine.park, present]
    exact List.mem_cons_self

/-- The end of a registration changes the suspension that is registered. -/
theorem StepsAt.turns_of_ended (steps : StepsAt run n i thread) (h : Run run)
    (present : (run n).heap.suspension? callback = some ⟨id, state⟩) {fiber : FiberId}
    {other : CallbackId} {code : Code σ Unit} {stack : List (Frame σ)}
    (next : thread.next? = some (.loop fiber (.registering other code) stack))
    {f : Rendezvous σ → Rendezvous σ}
    (parks : ∀ state : Rendezvous σ, f state = state.park stack ∨ f state = .abandoned) :
    ∃ state', ((run n).heap.meet other f)[callback.index]? = some ⟨id, state'⟩ ∧
      Turns run i n callback id state state' := by
  rw [Heap.getElem?_meet, present]
  split
  next same =>
    subst same
    obtain ⟨_, rest, control⟩ := Thread.next?_eq_some_iff.mp next
    obtain ⟨known, present', rfl, meeting⟩ := (h.owned n).meeting _
      ⟨thread, List.mem_of_getElem? steps.before, control ▸ List.mem_cons_self⟩
    cases present.symm.trans present'
    exact ⟨_, rfl, .ended meeting steps next (parks _)⟩
  next => exact ⟨_, rfl, .still⟩

/-- What a step of a thread does to a suspension. -/
theorem StepsAt.turns (steps : StepsAt run n i thread) (h : Run run) (tame : Tame run)
    (present : (run n).heap.suspension? callback = some ⟨id, state⟩) :
    ∃ state', (run (n + 1)).heap.suspension? callback = some ⟨id, state'⟩ ∧
      Turns run i n callback id state state' := by
  rw [steps.suspension?_eq]
  have still : ∃ state', (run n).heap.suspensions[callback.index]? = some ⟨id, state'⟩ ∧
      Turns run i n callback id state state' := ⟨state, present, .still⟩
  cases control : thread.control with
  | nil =>
    rw [Thread.suspensionsAfter, control]
    exact still
  | cons top rest =>
    cases panicking : thread.panicking with
    | some payload =>
      -- Only what is not guarded panics, and no registration is.
      have known := List.mem_of_getElem? steps.before
      obtain ⟨code, rfl | rfl⟩ := tame n thread known (by rw [panicking]; rfl) top rest control
      · rw [Thread.suspensionsAfter, control, panicking]
        exact still
      · rw [Thread.suspensionsAfter, control, panicking]
        exact still
    | none =>
      have next : thread.next? = some top := Thread.next?_eq_some_iff.mpr ⟨panicking, rest, control⟩
      rw [Thread.suspensionsAfter, control, panicking]
      dsimp only
      unfold Activation.suspensionsAfter
      split
      next fiber register stack =>
        split
        next => exact still
        next =>
          have small := (Array.getElem?_eq_some_iff.mp present).1
          refine ⟨state, ?_, .still⟩
          rw [Array.getElem?_push_lt small, ← Array.getElem?_eq_getElem small]
          exact present
      next => exact steps.turns_of_ended h present next fun _ => .inl rfl
      next => exact steps.turns_of_ended h present next fun _ => .inr rfl
      next =>
        cases completes : top.completes? with
        | none => exact still
        | some completion =>
          obtain ⟨other, value⟩ := completion
          simp only [Heap.completed]
          rw [Heap.getElem?_meet, present]
          split
          next own =>
            subst own
            exact ⟨_, rfl, .completed ⟨thread, top, steps, next, completes⟩⟩
          next => exact ⟨state, rfl, .still⟩

/-- What becomes of a suspension in one step of a run. -/
theorem Run.turns (h : Run run) (tame : Tame run)
    (present : (run n).heap.suspension? callback = some ⟨id, state⟩) :
    ∃ state', (run (n + 1)).heap.suspension? callback = some ⟨id, state'⟩ ∧
      (state' = state ∨ ∃ i, Turns run i n callback id state state') := by
  rcases h.steps_or_rests n with ⟨i, thread, steps⟩ | ⟨_, suspensions, _⟩
  · obtain ⟨state', after, turns⟩ := steps.turns h tame present
    exact ⟨state', after, .inr ⟨i, turns⟩⟩
  · exact ⟨state, by rw [Heap.suspension?, suspensions]; exact present, .inl rfl⟩

/-- A suspension stays with its fiber. -/
theorem Run.exists_suspension (h : Run run) (tame : Tame run)
    (present : (run n).heap.suspension? callback = some ⟨id, state⟩) {m : Nat} (later : n ≤ m) :
    ∃ state', (run m).heap.suspension? callback = some ⟨id, state'⟩ := by
  induction m, later using Nat.le_induction with
  | base => exact ⟨state, present⟩
  | succ m _ ih =>
    obtain ⟨state', there⟩ := ih
    obtain ⟨state'', after, _⟩ := h.turns tame there
    exact ⟨state'', after⟩

/-- Nobody waits again for a callback that nobody waits for any more. -/
theorem Run.over_stays (h : Run run) (tame : Tame run)
    (present : (run n).heap.suspension? callback = some ⟨id, state⟩) (ended : state.isOver = true)
    {m : Nat} (later : n ≤ m) :
    ∃ state', (run m).heap.suspension? callback = some ⟨id, state'⟩ ∧ state'.isOver = true := by
  induction m, later using Nat.le_induction with
  | base => exact ⟨state, present, ended⟩
  | succ m _ ih =>
    obtain ⟨state, there, ended⟩ := ih
    obtain ⟨state', after, rfl | ⟨i, turns⟩⟩ := h.turns tame there
    · exact ⟨_, after, ended⟩
    · refine ⟨state', after, ?_⟩
      cases turns with
      | still => exact ended
      | completed => exact Rendezvous.isOver_complete _ _
      | ended meeting _ _ parks =>
        rcases parks with rfl | rfl
        · exact Rendezvous.isOver_park ended meeting _
        · rfl

/-- A fiber that left its frames with a suspension stands nowhere else. -/
theorem places_of_parked {world : World σ} (owned : world.scene.Owned)
    (present : world.heap.suspension? callback = some ⟨id, .parked stack⟩) :
    world.places id = {.suspended callback stack} := by
  obtain ⟨rest, whole, _⟩ := Heap.places_setRendezvous present .resumed id
  have le : {.suspended callback stack} ≤ world.places id := by
    have own : (⟨id, .parked stack⟩ : Suspension σ).places id callback.index =
        {.suspended callback stack} := if_pos rfl
    rw [World.places, whole, own, add_assoc]
    exact Multiset.le_add_right _ _
  refine (Multiset.eq_of_le_of_card_le le ?_).symm
  rw [Multiset.card_singleton]
  exact owned.single id

theorem suspended_not_mem_batch {batch : Batch σ} :
    .suspended callback stack ∉ batch.places id := by
  intro mem
  rw [Batch.places] at mem
  split at mem
  · cases Multiset.mem_singleton.mp mem
  · simp at mem

/-- A fiber that waits for a callback has left its frames with the suspension. -/
theorem suspension?_of_places {world : World σ}
    (place : world.places id = {.suspended callback stack}) :
    world.heap.suspension? callback = some ⟨id, .parked stack⟩ := by
  have mem : .suspended callback stack ∈ world.places id :=
    place ▸ Multiset.mem_singleton_self _
  rw [World.places, Heap.places, Multiset.mem_add, Multiset.mem_add, Multiset.mem_add] at mem
  -- Of all that holds fibers, only suspensions hold them suspended.
  rcases mem with ((seed | task) | suspension) | onThread
  · obtain ⟨index, fiber, _, mem⟩ := exists_mem_of_mem_tally seed
    rw [FiberState.places] at mem
    split at mem
    · split at mem
      · cases Multiset.mem_singleton.mp mem
      · simp at mem
    · simp at mem
  · obtain ⟨_, executor, _, mem⟩ := exists_mem_of_mem_tally task
    obtain ⟨task, _, mem⟩ := exists_mem_of_mem_sum mem
    exact absurd mem suspended_not_mem_batch
  · obtain ⟨index, suspension, present, mem⟩ := exists_mem_of_mem_tally suspension
    obtain ⟨fiber, state⟩ := suspension
    cases state with
    | parked frames =>
      simp only [Suspension.places] at mem
      split at mem
      next own =>
        cases Multiset.mem_singleton.mp mem
        exact own ▸ present
      next => simp at mem
    | registering | completed | resumed | abandoned => simp [Suspension.places] at mem
  · obtain ⟨thread, _, mem⟩ := exists_mem_of_mem_sum onThread
    rw [Thread.places, Multiset.mem_add] at mem
    rcases mem with queued | inside
    · obtain ⟨batch, _, mem⟩ := exists_mem_of_mem_sum queued
      exact absurd mem suspended_not_mem_batch
    · obtain ⟨activation, _, mem⟩ := exists_mem_of_mem_sum inside
      cases activation with
      | loop fiber focus frames =>
        rw [Activation.places] at mem
        split at mem
        · cases Multiset.mem_singleton.mp mem
        · simp at mem
      | draining outer =>
        obtain ⟨batch, _, mem⟩ := exists_mem_of_mem_sum mem
        exact absurd mem suspended_not_mem_batch
      | program | callback | posting | opening | notifying => simp [Activation.places] at mem

/-! ### Exits on their way -/

variable {target : FiberId} {type : Ty} {exit : Exit Erased} {last : Nat}

/-- Up to some moment, a callback has been used for the exit of one fiber only. -/
def Sole (run : Nat → World σ) (callback : CallbackId) (target : FiberId) (type : Ty) (n : Nat) :
    Prop :=
  ∀ k < n, ∀ i other type', RegistersAt run i other k (.resume type' callback) →
    other.index = target.index ∧ type' = type

/-- An exit that a callback is completed with is that of the one fiber that it was used for. -/
theorem CallsAt.exit_of_sole {depth : Nat}
    (calls : CallsAt run i depth n (exit, .resume type callback)) (h : Run run)
    (observation : Observation run) {type' : Ty} (sole : Sole run callback target type' n) :
    type = type' ∧ (run n).heap.poll target = some exit := by
  obtain ⟨first, below, called, left, earlier, _, announces, _⟩ :=
    observation.called n i depth exit _ calls
  obtain ⟨other, polled, origin⟩ := observation.origin _ _ _ _ _ announces
  have registered : ∃ k ≤ first, ∃ i, RegistersAt run i other k (.resume type callback) := by
    rcases origin with ⟨_, history⟩ | ⟨_, observer, one, registers⟩
    · obtain ⟨k, _, before, i, registers⟩ := history.exists_of_mem List.mem_append_cons_self
      exact ⟨k, before.le, i, registers⟩
    · obtain rfl : .resume type callback = observer :=
        List.mem_singleton.mp (one ▸ List.mem_append_cons_self)
      exact ⟨first, le_rfl, _, registers⟩
  obtain ⟨k, before, j, registers⟩ := registered
  obtain ⟨own, rfl⟩ := sole k (before.trans_lt earlier) j other type registers
  rw [(run (first + 1)).heap.poll_congr own] at polled
  exact ⟨rfl, h.poll_stays earlier polled⟩

/-- The first moment at which a fiber has ended. -/
theorem Run.exists_end (h : Run run) (running : (run n).heap.poll id = none)
    (ended : (run last).heap.poll id = some exit) :
    ∃ m, n ≤ m ∧ m < last ∧ (run m).heap.poll id = none ∧
      (run (m + 1)).heap.poll id = some exit := by
  have le : n ≤ last := by
    by_contra later
    cases running.symm.trans (h.poll_stays (Nat.le_of_not_le later) ended)
  induction last, le using Nat.le_induction with
  | base => cases running.symm.trans ended
  | succ last le ih =>
    cases before : (run last).heap.poll id with
    | none => exact ⟨last, le, Nat.lt_succ_self last, before, ended⟩
    | some exit' =>
      cases ended.symm.trans (h.poll_stays (Nat.le_succ last) before)
      obtain ⟨m, low, high, found⟩ := ih before
      exact ⟨m, low, Nat.lt_succ_of_lt high, found⟩

/-- Whoever is to be told an exit is told by a thread that is about to, or has been told. -/
theorem Announces.told {below : List (Activation σ)} {observers : List (Observer σ)}
    (announces : Announces run n i below exit observers) (h : Run run) (tame : Tame run)
    (observation : Observation run) (mem : .resume type callback ∈ observers)
    (present : (run n).heap.suspension? callback = some ⟨id, state⟩) (later : n < last) :
    (∃ thread ∈ (run last).threads, ∃ left, .notifying exit left ∈ thread.control ∧
        .resume type callback ∈ left) ∨
      ∃ state', (run last).heap.suspension? callback = some ⟨id, state'⟩ ∧
        state'.isOver = true := by
  -- A call leaves the suspension in a state in which nobody waits.
  have ended {depth moment : Nat} {called : List (Observer σ)} (le : moment ≤ last)
      (history : History (CallsAt run i depth) (n + 1) moment (called.map (exit, ·)))
      (mem : .resume type callback ∈ called) :
      ∃ state', (run last).heap.suspension? callback = some ⟨id, state'⟩ ∧
        state'.isOver = true := by
    obtain ⟨m, low, high, calls⟩ := history.exists_of_mem (List.mem_map_of_mem mem)
    obtain ⟨state', there⟩ := h.exists_suspension tame present (Nat.le_of_succ_le low)
    obtain ⟨thread, rest, below, steps, calm, control, _⟩ := calls
    have after : (run (m + 1)).heap.suspension? callback =
        some ⟨id, state'.complete ⟨.exit type, exit.recover type⟩⟩ := by
      rw [steps.suspension?_eq, Thread.suspensionsAfter, control, calm]
      simp only [Activation.suspensionsAfter, Activation.completes?, Heap.completed]
      rw [Heap.getElem?_meet, if_pos rfl, there]
      rfl
    exact h.over_stays tame after (Rendezvous.isOver_complete _ _)
      (Nat.succ_le_of_lt (high.trans_le le))
  rcases observation.notified n i below exit observers last announces later with
    ⟨called, left, thread, above, rfl, history, known, control, _⟩ | ⟨moment, le, history, _⟩
  · rcases List.mem_append.mp mem with past | ahead
    · exact .inr (ended le_rfl history past)
    · refine .inl ⟨thread, List.mem_of_getElem? known, left, ?_, ahead⟩
      rw [control]
      exact List.mem_append_cons_self
  · exact .inr (ended le history mem)

/-- Whoever awaits the exit of a fiber that has ended is told by a thread that is about to, or has
been told. -/
theorem RegistersAt.told (registers : RegistersAt run i target n (.resume type callback))
    (h : Run run) (tame : Tame run) (observation : Observation run)
    (present : (run n).heap.suspension? callback = some ⟨id, state⟩) (later : n < last)
    (ended : (run last).heap.poll target = some exit) :
    (∃ thread ∈ (run last).threads, ∃ left, .notifying exit left ∈ thread.control ∧
        .resume type callback ∈ left) ∨
      ∃ state', (run last).heap.suspension? callback = some ⟨id, state'⟩ ∧
        state'.isOver = true := by
  cases before : (run n).heap.poll target with
  | some exit' =>
    obtain ⟨below, announces⟩ := registers.announces h before
    cases ended.symm.trans (h.poll_stays later.le before)
    exact announces.told h tame observation List.mem_cons_self present later
  | none =>
    obtain ⟨m, low, high, running, ends⟩ := h.exists_end before ended
    have earlier : n < m := by
      refine lt_of_le_of_ne low ?_
      rintro rfl
      rw [← Heap.exit?_progress, registers.progress h, Progress.exit?_register,
        Heap.exit?_progress, running] at ends
      cases ends
    obtain ⟨observers, history, j, below, announces⟩ := observation.ended m target exit running ends
    obtain ⟨state', there⟩ := h.exists_suspension tame present earlier.le
    exact announces.told h tame observation
      (history.mem_of_happens (Nat.zero_le n) earlier ⟨i, registers⟩) there high

end World

end Fibers
