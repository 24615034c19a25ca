import Fibers.Proofs.World.Influence
import Fibers.Proofs.World.Interruption
import Fibers.Proofs.World.Supply

/-!
# Async boundaries

A fiber that interprets an async effect hands out a callback and runs its registration. From then on
the end of the registration and the completion of the callback race with each other, on one thread
or on several.

## Main results

`World.async_boundary`: the fiber leaves the boundary at most once, with what came first on the
right side, above exactly the frames from before.

## Proof strategy

`Phase` says at which side of the race the fiber is, and what has happened so far. Whatever a thread
does, one of four things happens to the boundary: the registration returns, it panics, the callback
is completed, or nothing (`registering_next`, `waiting_next`, `over_next`). Nothing is assumed about
panics elsewhere, so a loop is followed through a step with `StepsAt.stays_or_tops`.
-/

namespace Fibers

variable {σ : Type}

/-- Whether an executor runs or keeps the tasks that it is handed. -/
def Heap.Takes (heap : Heap σ) (executor : ExecutorId) : Prop :=
  ∃ state, heap.executor? executor = some state ∧
    (state.discipline = .inline ∨ state.discipline = .hold)

/-- A task that is handed to an executor that takes tasks is on the thread or in the heap. -/
theorem Machine.held_execute_of_takes {heap : Heap σ} {executor : ExecutorId}
    (takes : heap.Takes executor) (thread : Thread σ) (task : Task σ) (id : FiberId) :
    held (execute heap thread executor task).1 (execute heap thread executor task).2 id =
      task.batch.places id + held heap thread id := by
  obtain ⟨⟨name, discipline, waiting⟩, known, rfl | rfl⟩ := takes
  · simp only [execute, known, held, Thread.places_run]
    rw [add_left_comm]
  · simp only [execute, known, held, Heap.places_enqueue known, add_assoc]

namespace World

open Strand

variable {run : Nat → World σ} {id : FiberId} {first n i : Nat} {thread : Thread σ}
  {stack : List (Frame σ)} {callback : CallbackId} {code : Code σ Unit} {value : Erased}
  {payload : Payload} {state : Rendezvous σ}

/-! ### What happens at a boundary -/

/-- A fiber comes to an async boundary: it interprets an async effect above some frames. -/
structure Suspends (run : Nat → World σ) (id : FiberId) (register : CallbackId → Code σ Unit)
    (stack : List (Frame σ)) (n : Nat) : Prop where
  stepped : ∃ i thread, StepsAt run n i thread ∧
    thread.next? = some (.loop id (.node (.async register)) stack)
  undue : (run n).heap.shouldInterrupt id = false

/-- The registration of a callback returns. -/
def ReturnsAt (run : Nat → World σ) (id : FiberId) (callback : CallbackId) (stack : List (Frame σ))
    (n : Nat) : Prop :=
  ∃ i thread, StepsAt run n i thread ∧
    thread.next? = some (.loop id (.registering callback (.done ())) stack)

/-- The registration of a callback panics, by itself or in something that it has called. -/
def PanicsAt (run : Nat → World σ) (id : FiberId) (callback : CallbackId) (stack : List (Frame σ))
    (payload : Payload) (n : Nat) : Prop :=
  ∃ i thread code rest, StepsAt run n i thread ∧
    thread.control = .loop id (.registering callback code) stack :: rest ∧
    thread.Panics (.loop id (.registering callback code) stack) payload

/-- Nobody completes a callback between two moments. -/
def Unused (run : Nat → World σ) (callback : CallbackId) (first n : Nat) : Prop :=
  ∀ k, first < k → k < n → ∀ i value, ¬CompletesAt run i k callback value

/-- A callback is completed with a value, for the first time after some moment. -/
structure AnsweredAt (run : Nat → World σ) (callback : CallbackId) (value : Erased)
    (first n : Nat) : Prop where
  later : first < n
  completes : ∃ i, CompletesAt run i n callback value
  unused : Unused run callback first n

/-- A fiber is at the boundary: its registration is running, or its frames wait for the callback. -/
def AtBoundary (run : Nat → World σ) (id : FiberId) (callback : CallbackId) (stack : List (Frame σ))
    (n : Nat) : Prop :=
  (∃ code, (run n).places id = {.active (.registering callback code) stack}) ∨
    (run n).places id = {.suspended callback stack}

theorem ReturnsAt.place (returns : ReturnsAt run id callback stack n) (h : Run run) :
    (run n).places id = {.active (.registering callback (.done ())) stack} := by
  obtain ⟨i, thread, steps, next⟩ := returns
  obtain ⟨_, rest, control⟩ := Thread.next?_eq_some_iff.mp next
  exact places_of_loop (h.owned n) (List.mem_of_getElem? steps.before)
    (control ▸ List.mem_cons_self)

theorem PanicsAt.place (panics : PanicsAt run id callback stack payload n) (h : Run run) :
    ∃ code, (run n).places id = {.active (.registering callback code) stack} := by
  obtain ⟨i, thread, code, rest, steps, control, _⟩ := panics
  exact ⟨code, places_of_loop (h.owned n) (List.mem_of_getElem? steps.before)
    (control ▸ List.mem_cons_self)⟩

/-- A fiber whose registration is running has a suspension in which nobody waits yet. -/
theorem exists_meeting (h : Run run)
    (place : (run n).places id = {.active (.registering callback code) stack}) :
    ∃ state, (run n).heap.suspension? callback = some ⟨id, state⟩ ∧ state.isMeeting = true := by
  have there : .active (.registering callback code) stack ∈ (run n).places id :=
    place ▸ Multiset.mem_singleton_self _
  have busy : ∀ current, Focus.registering callback code ≠ .node current := nofun
  obtain ⟨holder, known, mem⟩ := exists_loop busy there
  obtain ⟨⟨_, state⟩, present, rfl, meeting⟩ := (h.owned n).meeting _ ⟨holder, known, mem⟩
  exact ⟨state, present, meeting⟩

/-- A fiber at a boundary has a suspension there that is neither resumed nor abandoned. -/
theorem AtBoundary.exists_suspension (there : AtBoundary run id callback stack n) (h : Run run) :
    ∃ state, (run n).heap.suspension? callback = some ⟨id, state⟩ ∧
      state ≠ .resumed ∧ state ≠ .abandoned := by
  rcases there with ⟨code, place⟩ | place
  · obtain ⟨state, present, meeting⟩ := exists_meeting h place
    refine ⟨state, present, ?_, ?_⟩
    · rintro rfl
      cases meeting
    · rintro rfl
      cases meeting
  · exact ⟨_, suspension?_of_places place, nofun, nofun⟩

/-! ### What one step does to a suspension -/

/-- A suspension stays with its fiber. -/
theorem Run.suspension_stays (h : Run run)
    (present : (run n).heap.suspension? callback = some ⟨id, state⟩) :
    ∃ state', (run (n + 1)).heap.suspension? callback = some ⟨id, state'⟩ := by
  have kept {acts : FiberId → Prop} {before after : Scene σ} (turn : Turn acts before after)
      (there : before.heap.suspension? callback = some ⟨id, state⟩) :
      ∃ state', after.heap.suspension? callback = some ⟨id, state'⟩ := by
    obtain ⟨⟨_, state'⟩, present', rfl, _⟩ := turn.suspensions callback _ there
    exact ⟨state', present'⟩
  cases h.moves n with
  | idle turn => exact kept turn present
  | acted heap _ _ _ _ _ turn _ => exact kept turn (heap ▸ present)

/-- What completes a callback does so whatever the state of the suspension. -/
theorem CompletesAt.suspension?_eq (completes : CompletesAt run i n callback value)
    (present : (run n).heap.suspension? callback = some ⟨id, state⟩) :
    (run (n + 1)).heap.suspension? callback = some ⟨id, state.complete value⟩ := by
  obtain ⟨thread, activation, steps, next, completes⟩ := completes
  obtain ⟨calm, rest, control⟩ := Thread.next?_eq_some_iff.mp next
  have after : activation.suspensionsAfter (run n).heap =
      (run n).heap.meet callback (.complete value) := by
    unfold Activation.suspensionsAfter
    split
    next => cases completes
    next => cases completes
    next => cases completes
    next => rw [completes, Heap.completed]
  rw [steps.suspension?_eq, Thread.suspensionsAfter, control, calm]
  dsimp only
  rw [after, Heap.getElem?_meet, if_pos rfl, present]
  rfl

/-- A thread that neither completes a callback nor runs its registration leaves its suspension
alone. -/
theorem StepsAt.suspension?_of_apart (steps : StepsAt run n i thread)
    (present : (run n).heap.suspension? callback = some ⟨id, state⟩)
    (unused : ∀ value, ¬CompletesAt run i n callback value)
    (apart : ∀ owner code stack rest,
      thread.control ≠ .loop owner (.registering callback code) stack :: rest) :
    (run (n + 1)).heap.suspension? callback = some ⟨id, state⟩ := by
  rw [steps.suspension?_eq]
  have unmet {own : CallbackId} (other : own ≠ callback) (f : Rendezvous σ → Rendezvous σ) :
      ((run n).heap.meet own f)[callback.index]? = some ⟨id, state⟩ := by
    rw [Heap.getElem?_meet, if_neg other, present]
  have other {owner : FiberId} {own : CallbackId} {code : Code σ Unit} {stack : List (Frame σ)}
      {rest : List (Activation σ)}
      (control : thread.control = .loop owner (.registering own code) stack :: rest) :
      own ≠ callback := by
    rintro rfl
    exact apart _ _ _ _ control
  -- Only a registration, a panic in one and a completion change a suspension.
  rw [Thread.suspensionsAfter]
  split
  next top rest control calm =>
    unfold Activation.suspensionsAfter
    split
    next =>
      split
      next => exact present
      next =>
        have small := (Array.getElem?_eq_some_iff.mp present).1
        rw [Array.getElem?_push_lt small, ← Array.getElem?_eq_getElem small]
        exact present
    next => exact unmet (other control) _
    next => exact unmet (other control) _
    next =>
      cases completes : top.completes? with
      | none => exact present
      | some completion =>
        obtain ⟨own, found⟩ := completion
        refine unmet ?_ _
        rintro rfl
        exact unused found ⟨thread, top, steps,
          Thread.next?_eq_some_iff.mpr ⟨calm, rest, control⟩, completes⟩
  next control _ => exact unmet (other control) _
  next => exact present

/-- A thread that is at a registration returns from it, panics, or goes on with it. -/
theorem StepsAt.registering_cases (steps : StepsAt run n i thread) (h : Run run)
    {rest : List (Activation σ)}
    (control : thread.control = .loop id (.registering callback code) stack :: rest)
    (present : (run n).heap.suspension? callback = some ⟨id, state⟩) :
    ReturnsAt run id callback stack n ∨ (∃ payload, PanicsAt run id callback stack payload n) ∨
      (∃ code', (run (n + 1)).places id = {.active (.registering callback code') stack}) ∧
        ((∀ value, ¬CompletesAt run i n callback value) →
          (run (n + 1)).heap.suspension? callback = some ⟨id, state⟩) := by
  cases panicking : thread.panicking with
  | some payload =>
    exact .inr (.inl ⟨payload, i, thread, code, rest, steps, control, .above panicking⟩)
  | none =>
    have next : thread.next? = some (.loop id (.registering callback code) stack) :=
      Thread.next?_eq_some_iff.mpr ⟨panicking, rest, control⟩
    have holds := Activation.Holds.registering id callback code stack
    rcases code.done_or_panics_or_goes with ⟨⟨⟩, rfl⟩ | ⟨payload, rfl⟩ | going
    · exact .inl ⟨i, thread, steps, next⟩
    · exact .inr (.inl ⟨payload, i, thread, _, rest, steps, control, .own panicking holds⟩)
    · refine .inr (.inr ⟨steps.places_of_request h next holds going, fun unused => ?_⟩)
      rw [steps.suspension?_eq, Thread.suspensionsAfter, control, panicking]
      dsimp only
      rw [holds.suspensionsAfter going]
      -- If its next request completes a callback, then it is not the one that it is registered for.
      cases completes : code.completes? with
      | none => exact present
      | some completion =>
        obtain ⟨own, value⟩ := completion
        have other : own ≠ callback := by
          rintro rfl
          exact unused value ⟨thread, _, steps, next, completes⟩
        rw [Heap.completed, Heap.getElem?_meet, if_neg other, present]

/-- While a registration runs, its callback may be completed, and nothing else becomes of it. -/
theorem registering_next (h : Run run)
    (place : (run n).places id = {.active (.registering callback code) stack})
    (present : (run n).heap.suspension? callback = some ⟨id, state⟩)
    (running : ¬ReturnsAt run id callback stack n)
    (calm : ∀ payload, ¬PanicsAt run id callback stack payload n) :
    (∃ code', (run (n + 1)).places id = {.active (.registering callback code') stack}) ∧
      ((∀ i value, ¬CompletesAt run i n callback value) →
        (run (n + 1)).heap.suspension? callback = some ⟨id, state⟩) := by
  have busy : ∀ current, Focus.registering callback code ≠ .node current := nofun
  rcases h.steps_or_rests n with ⟨i, thread, steps⟩ | ⟨_, suspensions, rests⟩
  · by_cases top : ∃ rest, thread.control = .loop id (.registering callback code) stack :: rest
    · obtain ⟨rest, control⟩ := top
      rcases steps.registering_cases h control present with returns | ⟨payload, panics⟩ | goes
      · exact absurd returns running
      · exact absurd panics (calm payload)
      · exact ⟨goes.1, fun unused => goes.2 (unused i)⟩
    · refine ⟨⟨code, (steps.stays_or_tops h place busy).resolve_right top⟩, fun unused => ?_⟩
      refine steps.suspension?_of_apart present (unused i) ?_
      intro owner code' stack' rest control
      -- Whoever registers the callback is the fiber of the suspension, and stands in one place.
      have known := List.mem_of_getElem? steps.before
      have mem : Activation.loop owner (.registering callback code') stack' ∈ thread.control :=
        control ▸ List.mem_cons_self
      obtain ⟨found, there, rfl, _⟩ := (h.owned n).meeting _ ⟨thread, known, mem⟩
      cases present.symm.trans there
      cases Multiset.singleton_inj.mp (place.symm.trans (places_of_loop (h.owned n) known mem))
      exact top ⟨rest, control⟩
  · refine ⟨⟨code, rests.places_eq h place busy⟩, fun _ => ?_⟩
    rw [Heap.suspension?, suspensions]
    exact present

/-- Where no registration runs, nothing but a completion changes the suspension. -/
theorem Run.suspension?_of_unused (h : Run run)
    (present : (run n).heap.suspension? callback = some ⟨id, state⟩)
    (returned : state.isMeeting = false)
    (unused : ∀ i value, ¬CompletesAt run i n callback value) :
    (run (n + 1)).heap.suspension? callback = some ⟨id, state⟩ := by
  rcases h.steps_or_rests n with ⟨i, thread, steps⟩ | ⟨_, suspensions, _⟩
  · refine steps.suspension?_of_apart present (unused i) ?_
    intro owner code stack rest control
    have mem : Activation.loop owner (.registering callback code) stack ∈ thread.control :=
      control ▸ List.mem_cons_self
    obtain ⟨found, there, rfl, meeting⟩ :=
      (h.owned n).meeting _ ⟨thread, List.mem_of_getElem? steps.before, mem⟩
    cases present.symm.trans there
    cases returned.symm.trans meeting
  · rw [Heap.suspension?, suspensions]
    exact present

/-- Who returns from a registration goes on with what is kept for it, or leaves the frames. -/
theorem ReturnsAt.next (returns : ReturnsAt run id callback stack n) (h : Run run)
    (present : (run n).heap.suspension? callback = some ⟨id, state⟩) :
    (run (n + 1)).heap.suspension? callback = some ⟨id, state.park stack⟩ ∧
      ∀ value, state = .completed value →
        (run (n + 1)).places id = {.active (.value value) stack} := by
  obtain ⟨i, thread, steps, next⟩ := returns
  exact steps.parks h next present

/-- Who panics in a registration goes on with the defect, and the callback loses its meaning. -/
theorem PanicsAt.next (panics : PanicsAt run id callback stack payload n) (h : Run run) :
    (run (n + 1)).places id = {.active (.cause (.ofPayload payload)) stack} ∧
      (run (n + 1)).heap.suspension? callback = some ⟨id, .abandoned⟩ := by
  obtain ⟨state, present, _⟩ := exists_meeting h (panics.place h).choose_spec
  obtain ⟨i, thread, code, rest, steps, control, panics⟩ := panics
  refine ⟨(steps.stepped.caught h control panics rfl).2.1, ?_⟩
  have after : thread.suspensionsAfter (run n).heap =
      (run n).heap.meet callback fun _ => .abandoned := by
    cases panics with
    | above panicking => rw [Thread.suspensionsAfter, control, panicking]
    | own calm holds =>
      cases holds
      rw [Thread.suspensionsAfter, control, calm]
      rfl
  rw [steps.suspension?_eq, after, Heap.getElem?_meet, if_pos rfl, present]
  rfl

/-! ### Going on with a value -/

/-- How a fiber that waits goes on when its callback is completed. -/
inductive Resumption (run : Nat → World σ) (id : FiberId) (value : Erased) (stack : List (Frame σ))
    (n : Nat) : Prop where
  /-- No loop is running on the thread of the completion, so the loop of the fiber begins there. -/
  | directly {i : Nat} {thread : Thread σ} (steps : StepsAt run n i thread)
      (free : thread.pending = none) (tops : (run (n + 1)).Tops id (.node (.succeed value)) stack)
  /-- The frames are a task of the executor of the fiber. -/
  | handed {i : Nat} {thread : Thread σ} (steps : StepsAt run n i thread)
      (busy : thread.pending ≠ none)
      (place : (run (n + 1)).places id = {.active (.node (.succeed value)) stack})
  /-- The executor of the fiber does not take the task. -/
  | refused {i : Nat} {thread : Thread σ} (steps : StepsAt run n i thread)
      (busy : thread.pending ≠ none) (refuses : ¬(run n).heap.Takes ((run n).heap.executorOf id))
      (gone : (run (n + 1)).places id = 0)

theorem tops_of_free (steps : StepsAt run n i thread) (calm : thread.panicking = none)
    (free : thread.pending = none) {heap : Heap σ} {left : Activation σ}
    {below : List (Activation σ)}
    (step : Machine.step (run n).heap thread =
      Machine.resume heap (({ thread with control := below } : Thread σ).push left) id value
        stack) :
    (run (n + 1)).Tops id (.node (.succeed value)) stack := by
  refine ⟨_, List.mem_of_getElem? steps.after, Thread.next?_eq_some_iff.mpr ?_⟩
  rw [step, Machine.resume]
  simp only [Thread.push, free, Thread.run]
  exact ⟨calm, _, rfl⟩

theorem CompletesAt.resumption (completes : CompletesAt run i n callback value) (h : Run run)
    (parked : (run n).heap.suspension? callback = some ⟨id, .parked stack⟩) :
    Resumption run id value stack n := by
  have resumed := completes.resumes h parked
  obtain ⟨thread, activation, steps, next, completes⟩ := completes
  obtain ⟨calm, below, control⟩ := Thread.next?_eq_some_iff.mp next
  obtain ⟨left, _, advanced⟩ := Activation.exists_advance_of_completes completes (run n).heap
    { thread with control := below }
  have step : Machine.step (run n).heap thread =
      Machine.resume ((run n).heap.setRendezvous callback .resumed)
        (({ thread with control := below } : Thread σ).push left) id value stack := by
    rw [Machine.step_of_next? (run n).heap calm control, advanced, Machine.completeCallback, parked]
  by_cases free : thread.pending = none
  · exact .directly steps free (tops_of_free steps calm free step)
  · rcases resumed with place | gone
    · exact .handed steps free place
    · refine .refused steps free (fun takes => ?_) gone
      -- An executor that takes the task has it, or the thread does.
      obtain ⟨others, _, is⟩ := steps.replaces.exists_places id
      obtain ⟨queue, busy⟩ := Option.ne_none_iff_exists'.mp free
      rw [gone, steps.heap, step, Machine.resume] at is
      simp only [Thread.push, busy] at is
      refine absurd (add_eq_zero.mp is.symm).1 ?_
      rw [Machine.held_execute_of_takes, Batch.places, if_pos rfl]
      · exact fun none => Multiset.singleton_ne_zero _ (add_eq_zero.mp none).1
      · obtain ⟨state, known, takes⟩ := takes
        refine ⟨state, ?_, takes⟩
        rw [← known]
        unfold Heap.report
        split <;> rfl

/-- A completion that nobody waits for changes nothing but the code that makes it. -/
theorem CompletesAt.idle (completes : CompletesAt run i n callback value) (h : Run run)
    (present : (run n).heap.suspension? callback = some ⟨id, state⟩)
    (ended : state.isOver = true) :
    (run (n + 1)).heap = (run n).heap ∧ ∀ other,
      (run (n + 1)).places other = (run n).places other ∨
        ∃ focus focus' frames, (run n).Tops other focus frames ∧
          (run (n + 1)).places other = {.active focus' frames} := by
  obtain ⟨thread, activation, steps, next, completes⟩ := completes
  obtain ⟨calm, below, control⟩ := Thread.next?_eq_some_iff.mp next
  obtain ⟨left, continues, advanced⟩ := Activation.exists_advance_of_completes completes
    (run n).heap { thread with control := below }
  have step := (Machine.step_of_next? (run n).heap calm control).trans advanced
  have nothing : Machine.step (run n).heap thread =
      ((run n).heap, ({ thread with control := below } : Thread σ).push left) := by
    rw [step, Machine.completeCallback, present]
    cases state with
    | registering | parked => cases ended
    | completed | resumed | abandoned => rfl
  have heap : (run (n + 1)).heap = (run n).heap := by rw [steps.heap, nothing]
  refine ⟨heap, fun other => ?_⟩
  cases continues with
  | still same =>
    obtain ⟨rest, was, is⟩ := steps.replaces.exists_places other
    left
    rw [is, was, heap, nothing, Machine.held, Machine.held, Thread.places_push, same,
      Thread.places_of_control control]
  | loop owner focus focus' frames =>
    by_cases own : owner = other
    · subst own
      refine .inr ⟨focus, focus', frames, ⟨thread, List.mem_of_getElem? steps.before, next⟩, ?_⟩
      have after := List.mem_of_getElem? steps.after
      rw [nothing] at after
      exact places_of_loop (h.owned (n + 1)) after List.mem_cons_self
    · obtain ⟨rest, was, is⟩ := steps.replaces.exists_places other
      left
      rw [is, was, heap, nothing, Machine.held, Machine.held, Thread.places_push,
        Thread.places_of_control control]
      simp only [Activation.places, if_neg own]

/-- The loop of a fiber that goes on with a value hands it to the frames. -/
theorem StepsAt.places_of_succeed (steps : StepsAt run n i thread) (h : Run run)
    (next : thread.next? = some (.loop id (.node (.succeed value)) stack))
    (undue : (run n).heap.shouldInterrupt id = false) :
    (run (n + 1)).places id = {.active (.value value) stack} := by
  obtain ⟨calm, rest, control⟩ := Thread.next?_eq_some_iff.mp next
  have mem : Activation.loop id (.value value) stack ∈
      (Machine.step (run n).heap thread).2.control := by
    rw [Machine.step_of_undue calm control undue]
    exact List.mem_cons_self
  exact places_of_loop (h.owned (n + 1)) (List.mem_of_getElem? steps.after) mem

/-- A fiber stands somewhere through a stretch of a run. -/
def Dwells (run : Nat → World σ) (id : FiberId) (place : Place σ) (first last : Nat) : Prop :=
  ∀ n, first ≤ n → n ≤ last → (run n).places id = {place}

/-- A fiber that goes on with a value keeps it until its loop hands it to the frames. -/
theorem Run.keeps_or_hands_over (h : Run run) {last : Nat}
    (place : (run n).places id = {.active (.node (.succeed value)) stack}) (le : n ≤ last)
    (there : (run last).places id ≠ 0)
    (unrequested : ∀ k, n ≤ k → k ≤ last → ∀ fiber, (run k).heap.fiber? id = some fiber →
      fiber.flags.requested = false) :
    Dwells run id (.active (.node (.succeed value)) stack) n last ∨
      ∃ k, n ≤ k ∧ k < last ∧ Dwells run id (.active (.node (.succeed value)) stack) n k ∧
        (run (k + 1)).places id = {.active (.value value) stack} := by
  obtain ⟨knows, _⟩ := (h.owned n).placed place
  obtain ⟨fiber, present⟩ := knows.exists_fiber
  have start : (run n).scene.Shows id
      ⟨.active (.node (.succeed value)) stack, fiber.holding, true⟩ :=
    ⟨knows, place, ⟨fiber, present, rfl⟩, nofun⟩
  obtain ⟨strands, begins, follows⟩ := h.exists_follows start le there
  have never := follows.unrequested unrequested
  obtain ⟨feed, fed⟩ := follows.stretch.exists_fed never
  have stands {k : Nat} (high : k ≤ last) (stays : Stays strands n k) :
      Dwells run id (.active (.node (.succeed value)) stack) n k := by
    intro j low high'
    have same := (follows.seen j low (high'.trans high)).place
    rwa [stays j low high', begins] at same
  rcases fed.rests_or_steps le_rfl le with stays | ⟨k, input, low, high, stays, step⟩
  · exact .inl (stands le_rfl stays)
  · refine .inr ⟨k, low, high, stands high.le stays, ?_⟩
    have undue : (strands n).holding.flags.shouldInterrupt = false := by
      simp [InterruptFlags.shouldInterrupt, never n le_rfl le]
    rw [begins] at step undue
    have moved := step.of_silent undue (.succeed _ _ _ _)
    have after := (follows.seen (k + 1) (Nat.le_succ_of_le low) high).place
    rwa [moved] at after

/-! ### The race -/

/-- A registration does not return between two moments. -/
def Unreturned (run : Nat → World σ) (id : FiberId) (callback : CallbackId)
    (stack : List (Frame σ)) (first n : Nat) : Prop :=
  ∀ k, first < k → k < n → ¬ReturnsAt run id callback stack k

theorem Unused.succ (unused : Unused run callback first n)
    (none : ∀ i value, ¬CompletesAt run i n callback value) :
    Unused run callback first (n + 1) := by
  intro k low high
  rcases Nat.lt_succ_iff_lt_or_eq.mp high with old | rfl
  · exact unused k low old
  · exact none

theorem Unused.mono (unused : Unused run callback first (n + 1)) : Unused run callback first n :=
  fun k low high => unused k low (Nat.lt_succ_of_lt high)

theorem Unreturned.succ (unreturned : Unreturned run id callback stack first n)
    (running : ¬ReturnsAt run id callback stack n) :
    Unreturned run id callback stack first (n + 1) := by
  intro k low high
  rcases Nat.lt_succ_iff_lt_or_eq.mp high with old | rfl
  · exact unreturned k low old
  · exact running

/-- Where a fiber is that has come to a boundary, and what has happened there. -/
inductive Phase (run : Nat → World σ) (id : FiberId) (callback : CallbackId)
    (stack : List (Frame σ)) (first n : Nat) : Prop where
  /-- The registration is running, and the callback is still to come. -/
  | registering {code : Code σ Unit}
      (place : (run n).places id = {.active (.registering callback code) stack})
      (present : (run n).heap.suspension? callback = some ⟨id, .registering⟩)
      (unused : Unused run callback first n)
      (unreturned : Unreturned run id callback stack first n)
  /-- The registration is running, and the callback has been completed. -/
  | answered {code : Code σ Unit} {value : Erased}
      (place : (run n).places id = {.active (.registering callback code) stack})
      (present : (run n).heap.suspension? callback = some ⟨id, .completed value⟩)
      (used : ¬Unused run callback first n)
      (found : ∀ k value', AnsweredAt run callback value' first k → k < n → value' = value)
      (unreturned : Unreturned run id callback stack first n)
  /-- The registration has returned, and the callback is still to come. -/
  | waiting (present : (run n).heap.suspension? callback = some ⟨id, .parked stack⟩)
      (unused : Unused run callback first n)
  /-- The fiber has gone on. -/
  | settled {state : Rendezvous σ} (present : (run n).heap.suspension? callback = some ⟨id, state⟩)
      (settled : state = .resumed ∨ state = .abandoned)
      (why : ¬Unused run callback first n ∨ Unreturned run id callback stack first n ∧
        ∃ k payload, k < n ∧ PanicsAt run id callback stack payload k)

theorem Suspends.stage {register : CallbackId → Code σ Unit}
    (suspends : Suspends run id register stack first) (h : Run run) :
    (run (first + 1)).places id = {.active (.registering (run first).heap.nextCallback
        (register (run first).heap.nextCallback)) stack} ∧
      Phase run id (run first).heap.nextCallback stack first (first + 1) := by
  obtain ⟨⟨i, thread, steps, next⟩, undue⟩ := suspends
  obtain ⟨calm, rest, control⟩ := Thread.next?_eq_some_iff.mp next
  have made : (run (first + 1)).heap.suspension? (run first).heap.nextCallback =
      some ⟨id, .registering⟩ := by
    rw [steps.suspension?_eq, Thread.suspensionsAfter, control, calm]
    simp only [Activation.suspensionsAfter, undue]
    exact Array.getElem?_push_size
  have place := steps.places_of_async h next undue
  have early {k : Nat} (low : first < k) : ¬k < first + 1 := Nat.not_lt.mpr low
  exact ⟨place, .registering place made (fun k low high => absurd high (early low))
    fun k low high => absurd high (early low)⟩

/-- While the callback is still to come, a registration that is running goes on, returns or panics.
-/
theorem stage_of_registering (h : Run run)
    (place : (run n).places id = {.active (.registering callback code) stack})
    (present : (run n).heap.suspension? callback = some ⟨id, .registering⟩)
    (unused : Unused run callback first n)
    (unreturned : Unreturned run id callback stack first n) (later : first < n) :
    Phase run id callback stack first (n + 1) := by
  by_cases returns : ReturnsAt run id callback stack n
  · obtain ⟨after, _⟩ := returns.next h present
    refine .waiting after (unused.succ fun i value completes => ?_)
    cases after.symm.trans (completes.suspension?_eq present)
  · by_cases panics : ∃ payload, PanicsAt run id callback stack payload n
    · obtain ⟨payload, panics⟩ := panics
      exact .settled (panics.next h).2 (.inr rfl)
        (.inr ⟨unreturned.succ returns, n, payload, n.lt_succ_self, panics⟩)
    · obtain ⟨⟨code', place'⟩, still⟩ :=
        registering_next h place present returns (not_exists.mp panics)
      by_cases completes : ∃ i value, CompletesAt run i n callback value
      · obtain ⟨i, value, completes⟩ := completes
        have after := completes.suspension?_eq present
        refine .answered place' after (fun never => never n later n.lt_succ_self i value completes)
          (fun k value' answered before => ?_) (unreturned.succ returns)
        obtain ⟨low, ⟨j, completes'⟩, _⟩ := answered
        rcases Nat.lt_succ_iff_lt_or_eq.mp before with old | rfl
        · exact absurd completes' (unused k low old j value')
        · cases after.symm.trans (completes'.suspension?_eq present)
          rfl
      · have none : ∀ i value, ¬CompletesAt run i n callback value :=
          fun i value now => completes ⟨i, value, now⟩
        exact .registering place' (still none) (unused.succ none) (unreturned.succ returns)

/-- Once the callback has come, its value is kept until the registration ends. -/
theorem stage_of_answered (h : Run run)
    (place : (run n).places id = {.active (.registering callback code) stack})
    (present : (run n).heap.suspension? callback = some ⟨id, .completed value⟩)
    (used : ¬Unused run callback first n)
    (found : ∀ k value', AnsweredAt run callback value' first k → k < n → value' = value)
    (unreturned : Unreturned run id callback stack first n) :
    Phase run id callback stack first (n + 1) := by
  have used' : ¬Unused run callback first (n + 1) := fun unused => used unused.mono
  by_cases returns : ReturnsAt run id callback stack n
  · exact .settled (returns.next h present).1 (.inl rfl) (.inl used')
  · by_cases panics : ∃ payload, PanicsAt run id callback stack payload n
    · obtain ⟨payload, panics⟩ := panics
      exact .settled (panics.next h).2 (.inr rfl) (.inl used')
    · obtain ⟨⟨code', place'⟩, still⟩ :=
        registering_next h place present returns (not_exists.mp panics)
      have kept : (run (n + 1)).heap.suspension? callback = some ⟨id, .completed value⟩ := by
        by_cases completes : ∃ i value', CompletesAt run i n callback value'
        · -- The first value stays.
          obtain ⟨i, value', completes⟩ := completes
          exact completes.suspension?_eq present
        · exact still fun i value' now => completes ⟨i, value', now⟩
      refine .answered place' kept used' (fun k value' answered before => ?_)
        (unreturned.succ returns)
      rcases Nat.lt_succ_iff_lt_or_eq.mp before with old | rfl
      · exact found k value' answered old
      · exact absurd answered.unused used

/-- Nothing becomes of a suspension that its fiber has left. -/
theorem Run.suspension?_of_settled (h : Run run)
    (present : (run n).heap.suspension? callback = some ⟨id, state⟩)
    (settled : state = .resumed ∨ state = .abandoned) :
    (run (n + 1)).heap.suspension? callback = some ⟨id, state⟩ := by
  by_cases completes : ∃ i value, CompletesAt run i n callback value
  · obtain ⟨i, value, completes⟩ := completes
    rw [completes.suspension?_eq present]
    rcases settled with rfl | rfl <;> rfl
  · refine h.suspension?_of_unused present ?_ fun i value now => completes ⟨i, value, now⟩
    rcases settled with rfl | rfl <;> rfl

/-- A fiber that has gone on is not at the boundary, then or later. -/
theorem not_atBoundary (h : Run run)
    (present : (run n).heap.suspension? callback = some ⟨id, state⟩)
    (settled : state = .resumed ∨ state = .abandoned) {m : Nat} (le : n ≤ m) :
    ¬AtBoundary run id callback stack m := by
  intro there
  have stays : (run m).heap.suspension? callback = some ⟨id, state⟩ := by
    clear there
    induction m, le using Nat.le_induction with
    | base => exact present
    | succ m _ ih => exact h.suspension?_of_settled ih settled
  obtain ⟨_, present', unresumed, meaningful⟩ := there.exists_suspension h
  cases stays.symm.trans present'
  exact settled.elim unresumed meaningful

theorem Phase.next (stage : Phase run id callback stack first n) (h : Run run)
    (later : first < n) : Phase run id callback stack first (n + 1) := by
  cases stage with
  | registering place present unused unreturned =>
    exact stage_of_registering h place present unused unreturned later
  | answered place present used found unreturned =>
    exact stage_of_answered h place present used found unreturned
  | waiting present unused =>
    by_cases completes : ∃ i value, CompletesAt run i n callback value
    · obtain ⟨i, value, completes⟩ := completes
      exact .settled (completes.suspension?_eq present) (.inl rfl)
        (.inl fun never => never n later n.lt_succ_self i value completes)
    · have none : ∀ i value, ¬CompletesAt run i n callback value :=
        fun i value now => completes ⟨i, value, now⟩
      exact .waiting (h.suspension?_of_unused present rfl none) (unused.succ none)
  | settled present settled why =>
    refine .settled (h.suspension?_of_settled present settled) settled
      (why.imp (fun used unused => used unused.mono) ?_)
    rintro ⟨unreturned, k, payload, before, panics⟩
    refine ⟨unreturned.succ fun returns => ?_, k, payload, Nat.lt_succ_of_lt before, panics⟩
    exact not_atBoundary h present settled le_rfl (.inl ⟨_, returns.place h⟩)

theorem Suspends.stages {register : CallbackId → Code σ Unit}
    (suspends : Suspends run id register stack first) (h : Run run) {n : Nat} (later : first < n) :
    Phase run id (run first).heap.nextCallback stack first n := by
  induction n, Nat.succ_le_of_lt later using Nat.le_induction with
  | base => exact (suspends.stage h).2
  | succ n low ih => exact (ih low).next h low

/-- A fiber is at the boundary until it has gone on. -/
theorem Phase.atBoundary_or_settled (stage : Phase run id callback stack first n) (h : Run run) :
    AtBoundary run id callback stack n ∨ ∃ state,
      (run n).heap.suspension? callback = some ⟨id, state⟩ ∧
        (state = .resumed ∨ state = .abandoned) := by
  cases stage with
  | registering place | answered place => exact .inl (.inl ⟨_, place⟩)
  | waiting present => exact .inl (.inr (places_of_parked (h.owned n) present))
  | settled present settled => exact .inr ⟨_, present, settled⟩

/-- A fiber that has left a boundary does not come back to it. -/
theorem Suspends.atBoundary_of_later {register : CallbackId → Code σ Unit}
    (suspends : Suspends run id register stack first) (h : Run run) {m : Nat} (later : first < n)
    (le : n ≤ m) (there : AtBoundary run id (run first).heap.nextCallback stack m) :
    AtBoundary run id (run first).heap.nextCallback stack n := by
  refine ((suspends.stages h later).atBoundary_or_settled h).resolve_right ?_
  rintro ⟨state, present, settled⟩
  exact not_atBoundary h present settled le there

/-- Before a fiber comes to a boundary, nobody has a suspension there. -/
theorem AtBoundary.later (there : AtBoundary run id (run first).heap.nextCallback stack n)
    (h : Run run) : first < n := by
  by_contra early
  obtain ⟨state, present, _⟩ := there.exists_suspension h
  have stays : ∃ state', (run first).heap.suspension? (run first).heap.nextCallback =
      some ⟨id, state'⟩ := by
    generalize (run first).heap.nextCallback = callback at present
    clear there
    induction first, Nat.le_of_not_lt early using Nat.le_induction with
    | base => exact ⟨state, present⟩
    | succ k low ih =>
      obtain ⟨state', there⟩ := ih (Nat.not_lt.mpr low)
      exact h.suspension_stays there
  obtain ⟨state', present'⟩ := stays
  exact absurd (Array.getElem?_eq_some_iff.mp present').1 (Nat.lt_irrefl _)

/-! ### The law of the boundary -/

/-- What becomes of a fiber that comes to an async boundary at some moment. -/
structure Boundary (run : Nat → World σ) (id : FiberId) (callback : CallbackId)
    (register : CallbackId → Code σ Unit) (stack : List (Frame σ)) (first : Nat) : Prop where
  /-- The registration begins above the frames. -/
  begins : (run (first + 1)).places id =
    {.active (.registering callback (register callback)) stack}
  /-- The fiber was not at the boundary before. -/
  later : ∀ n, AtBoundary run id callback stack n → first < n
  /-- It leaves the boundary at most once. -/
  once : ∀ n m, first < n → n ≤ m → AtBoundary run id callback stack m →
    AtBoundary run id callback stack n
  /-- If the callback comes before the registration returns, the fiber goes on at once with the
  first value, above the frames. -/
  met : ∀ k n value, AnsweredAt run callback value first k → k ≤ n →
    ReturnsAt run id callback stack n →
    (run (n + 1)).places id = {.active (.value value) stack}
  /-- If the callback comes later, the fiber goes on at once with the first value, above the frames,
  unless its executor does not take them. -/
  resumed : ∀ k n value, ReturnsAt run id callback stack k → k < n →
    AnsweredAt run callback value first n → Resumption run id value stack n
  /-- Frames that go on with a value keep it until the loop of the fiber hands it to them. -/
  kept : ∀ n last value, (run n).places id = {.active (.node (.succeed value)) stack} → n ≤ last →
    (run last).places id ≠ 0 →
    (∀ k, n ≤ k → k ≤ last → ∀ fiber, (run k).heap.fiber? id = some fiber →
      fiber.flags.requested = false) →
    Dwells run id (.active (.node (.succeed value)) stack) n last ∨
      ∃ k, n ≤ k ∧ k < last ∧ Dwells run id (.active (.node (.succeed value)) stack) n k ∧
        (run (k + 1)).places id = {.active (.value value) stack}
  /-- Whoever runs that loop hands the value to the frames. -/
  handed : ∀ n i thread value, StepsAt run n i thread →
    thread.next? = some (.loop id (.node (.succeed value)) stack) →
    (run n).heap.shouldInterrupt id = false →
    (run (n + 1)).places id = {.active (.value value) stack}
  /-- If the registration panics, the fiber goes on with the defect, above the frames, whether or
  not the callback has come, and is not at the boundary any more. -/
  panicked : ∀ n payload, PanicsAt run id callback stack payload n →
    (run (n + 1)).places id = {.active (.cause (.die payload.text)) stack} ∧
      ∀ m, n < m → ¬AtBoundary run id callback stack m
  /-- A callback that has come before, or whose fiber is not at the boundary any more, changes
  nothing in any fiber but the one whose code completes it. -/
  spent : ∀ n i value, first < n →
    ¬(AtBoundary run id callback stack n ∧ Unused run callback first n) →
    CompletesAt run i n callback value →
    (run (n + 1)).heap = (run n).heap ∧ ∀ other,
      (run (n + 1)).places other = (run n).places other ∨
        ∃ focus focus' frames, (run n).Tops other focus frames ∧
          (run (n + 1)).places other = {.active focus' frames}
  /-- As long as the callback has not come and the registration has not panicked, the fiber is at
  the boundary, and not done. -/
  dropped : ∀ n, first < n → Unused run callback first n →
    (∀ k payload, k < n → ¬PanicsAt run id callback stack payload k) →
    AtBoundary run id callback stack n ∧ (run n).heap.poll id = none

/-- A fiber that comes to an async boundary goes on from there at most once, whatever its
registration does and in whichever order the registration returns or panics and its callback is
completed, on any thread, or dropped. If the registration returns, the fiber goes on with the first
value that the callback is completed with; if it panics, with the defect; in both cases above
exactly the frames from before. Nothing else that is done with the callback has any effect, and
without it the fiber is never resumed and never done. -/
theorem async_boundary (h : Run run) {register : CallbackId → Code σ Unit}
    (suspends : Suspends run id register stack first) :
    Boundary run id (run first).heap.nextCallback register stack first where
  begins := (suspends.stage h).1
  later _ there := there.later h
  once _ _ := suspends.atBoundary_of_later h
  met k n value answered le returns := by
    -- Until the registration returns, the fiber is at the boundary, and the value waits there.
    have there : AtBoundary run id _ stack n := .inl ⟨_, returns.place h⟩
    cases suspends.stages h (there.later h) with
    | registering place present unused unreturned =>
      obtain ⟨low, ⟨i, completes⟩, _⟩ := answered
      rcases Nat.lt_or_eq_of_le le with before | rfl
      · exact absurd completes (unused k low before i value)
      · cases (returns.next h present).1.symm.trans (completes.suspension?_eq present)
    | answered place present used found unreturned =>
      rcases Nat.lt_or_eq_of_le le with before | rfl
      · exact (returns.next h present).2 value (found k value answered before ▸ rfl)
      · exact absurd answered.unused used
    | waiting present unused =>
      cases Multiset.singleton_inj.mp
        ((returns.place h).symm.trans (places_of_parked (h.owned n) present))
    | settled present settled why => exact absurd there (not_atBoundary h present settled le_rfl)
  resumed k n value returns before answered := by
    -- Once the registration has returned, the fiber waits for the first value.
    have there : AtBoundary run id _ stack k := .inl ⟨_, returns.place h⟩
    obtain ⟨i, completes⟩ := answered.completes
    cases suspends.stages h answered.later with
    | registering _ _ _ unreturned => exact absurd returns (unreturned k (there.later h) before)
    | answered _ _ used => exact absurd answered.unused used
    | waiting present => exact completes.resumption h present
    | settled present settled why =>
      rcases why with used | ⟨unreturned, _⟩
      · exact absurd answered.unused used
      · exact absurd returns (unreturned k (there.later h) before)
  kept _ _ _ place le there unrequested := h.keeps_or_hands_over place le there unrequested
  handed _ _ _ _ steps next undue := steps.places_of_succeed h next undue
  panicked _ _ panics :=
    ⟨(panics.next h).1, fun _ later => not_atBoundary h (panics.next h).2 (.inr rfl) later⟩
  spent n i value later gone completes := by
    -- The fiber has left the boundary, so its suspension holds a value or is settled.
    cases suspends.stages h later with
    | registering place _ unused => exact absurd ⟨.inl ⟨_, place⟩, unused⟩ gone
    | answered _ present => exact completes.idle h present rfl
    | waiting present unused =>
      exact absurd ⟨.inr (places_of_parked (h.owned n) present), unused⟩ gone
    | settled present settled =>
      refine completes.idle h present ?_
      rcases settled with rfl | rfl <;> rfl
  dropped n later unused calm := by
    have there : AtBoundary run id (run first).heap.nextCallback stack n := by
      cases suspends.stages h later with
      | registering place => exact .inl ⟨_, place⟩
      | answered _ _ used => exact absurd unused used
      | waiting present => exact .inr (places_of_parked (h.owned n) present)
      | settled _ _ why =>
        -- It could be settled by a completion or by a panic only, and neither has happened.
        rcases why with used | ⟨_, k, payload, before, panics⟩
        · exact absurd unused used
        · exact absurd panics (calm k payload before)
    refine ⟨there, ((h.owned n).there ?_).2⟩
    rcases there with ⟨_, place⟩ | place <;> exact place.trans_ne (Multiset.singleton_ne_zero _)

/-- A program that completes the callback of a fiber after its registration has returned. -/
def answeringSeven : Code Nat Unit :=
  .launch ⟨0⟩ (.async fun _ => .done ()) fun _ => .complete ⟨0⟩ ⟨.int, 7⟩ (.done ·)

/-- The fiber goes on with the value on the thread of the program. -/
theorem async_boundary_answering :
    Suspends (trial 0 answeringSeven) ⟨1⟩ (fun _ => .done ()) [] 1 ∧
      ReturnsAt (trial 0 answeringSeven) ⟨1⟩ ⟨0⟩ [] 2 ∧
      AnsweredAt (trial 0 answeringSeven) ⟨0⟩ ⟨.int, 7⟩ 1 4 ∧
      Resumption (trial 0 answeringSeven) ⟨1⟩ ⟨.int, 7⟩ [] 4 := by
  have suspends : Suspends (trial 0 answeringSeven) ⟨1⟩ (fun _ => .done ()) [] 1 :=
    ⟨⟨0, _, stepsAt_trial 0 answeringSeven 1, rfl⟩, rfl⟩
  have returns : ReturnsAt (trial 0 answeringSeven) ⟨1⟩ ⟨0⟩ [] 2 :=
    ⟨0, _, stepsAt_trial 0 answeringSeven 2, rfl⟩
  have unused : Unused (trial 0 answeringSeven) ⟨0⟩ 1 4 := by
    rintro k low high i value ⟨thread, activation, steps, next, completes⟩
    obtain rfl := eq_zero_of_stepsAt_trial steps
    obtain rfl : (trial 0 answeringSeven k).main = thread := Option.some.inj steps.before
    interval_cases k
    · cases next
      cases completes
    · cases next
      cases completes
  have answered : AnsweredAt (trial 0 answeringSeven) ⟨0⟩ ⟨.int, 7⟩ 1 4 :=
    ⟨by decide, ⟨0, _, _, stepsAt_trial 0 answeringSeven 4, rfl, rfl⟩, unused⟩
  exact ⟨suspends, returns, answered,
    (async_boundary (run_trial 0 answeringSeven) suspends).resumed 2 4 _ returns (by decide)
      answered⟩

end World

end Fibers
