import Fibers.Proofs.Machine.Act
import Fibers.Proofs.Machine.Control

/-!
# Refused tasks

An executor may panic instead of taking a task. The batch in the task is gone then, and so is its
fiber.

## Main results

`Machine.refuses_of_refused?` and `Machine.refuses_of_refusedRequest?`: a fiber whose task is
refused stands nowhere, although it has not ended, whether the interpreter hands it over or user
code asks for it.
-/

namespace Fibers

variable {σ : Type}

@[simp] theorem Heap.poll_report (heap : Heap σ) (thread : ThreadId) (severity : Severity)
    (event : Unit → Event) (id : FiberId) :
    (heap.report thread severity event).poll id = heap.poll id := by
  rw [Heap.poll, Heap.poll, Heap.fiber?, Heap.fiber?, (heap.tables_report _ _ _).1]

theorem Heap.poll_updateFiber (heap : Heap σ) (fiber id : FiberId)
    {f : FiberState σ → FiberState σ} (exit : ∀ state, (f state).exit? = state.exit?) :
    (heap.updateFiber fiber f).poll id = heap.poll id := by
  refine Option.ext fun outcome => ?_
  rw [Heap.poll_eq_some_iff, Heap.poll_eq_some_iff, Heap.fiber?, Heap.fibers_updateFiber,
    Heap.fiber?]
  split
  next =>
    cases heap.fibers[id.index]? with
    | none => rfl
    | some state => simp [exit]
  next => rfl

theorem Suspension.places_parked (id : FiberId) (index : Nat) (stack : List (Frame σ)) :
    ({ fiber := id, state := .parked stack } : Suspension σ).places id index =
      {.suspended ⟨index⟩ stack} :=
  if_pos rfl

theorem Activation.Holds.card_places {activation : Activation σ} {α : Type}
    {keep : Code σ α → Activation σ} {code : Code σ α} (holds : activation.Holds keep code)
    (rest : Code σ α) (id : FiberId) :
    ((keep rest).places id).card = (activation.places id).card := by
  cases holds with
  | program | callback => rfl
  | thunk fiber | raising fiber | building fiber | registering fiber =>
    simp only [Activation.places]
    split <;> simp

namespace Machine

variable {heap : Heap σ} {thread : Thread σ} {activation : Activation σ} {id : FiberId}
  {executor : ExecutorId} {payload : Payload}

/-! ### What a refusal does to the fiber -/

/-- A fiber that has not ended stands nowhere. -/
structure Stranded (heap : Heap σ) (thread : Thread σ) (id : FiberId) : Prop where
  knows : heap.Knows id
  nowhere : held heap thread id = 0
  running : heap.poll id = none

/-- A task was refused: a panic is on its way, and the fiber of the task is stranded. -/
structure Refuses (thread : Thread σ) (id : FiberId) (payload : Payload)
    (after : Heap σ × Thread σ) : Prop where
  raised : after.2 = thread.raise payload
  stranded : Stranded after.1 after.2 id

/-- The batch in a refused task is nowhere else. -/
theorem refuses_execute (stranded : Stranded heap thread id)
    (refuses : heap.refusal? executor = some payload) (reporter : ThreadId) (severity : Severity)
    (event : Unit → Event) (task : Task σ) :
    Refuses thread id payload
      (execute (heap.report reporter severity event) thread executor task) := by
  have reported : Stranded (heap.report reporter severity event) thread id := by
    refine ⟨((heap.kept_report _ _ _).known id).mp stranded.knows, ?_, ?_⟩
    · rw [held, Heap.places_report]
      exact stranded.nowhere
    · exact (heap.poll_report _ _ _ id).trans stranded.running
  rw [← Heap.refusal?_of_executors (heap.executors_report reporter severity event)] at refuses
  generalize heap.report reporter severity event = heap at reported refuses
  unfold Heap.refusal? at refuses
  unfold execute
  split at refuses
  next name refusal waiting present =>
    cases refuses
    rw [present]
    exact ⟨rfl, reported.knows, reported.nowhere, reported.running⟩
  next => cases refuses

theorem refuses_start {fiber : FiberState σ} {effect : Node σ} (seed : fiber.seed = some effect)
    (running : fiber.exit? = none) (fresh : held heap thread heap.nextFiber = 0)
    (refuses : heap.refusal? fiber.executor = some payload) (root : Bool) :
    Refuses thread heap.nextFiber payload
      (start (heap.addFiber fiber) thread heap.nextFiber root) := by
  have present := heap.fiber?_addFiber fiber
  have launched : Stranded (heap.launch fiber) thread heap.nextFiber := by
    refine ⟨(heap.knows_launch fiber _).mpr (.inr rfl), ?_, ?_⟩
    · rw [held, heap.places_launch]
      exact fresh
    · have known : (heap.launch fiber).fiber? heap.nextFiber = some { fiber with seed := none } :=
        (heap.fibers_launch fiber _).trans (if_pos rfl)
      exact (Heap.poll_of_fiber? known).trans running
  obtain ⟨progress, flags, environments, executor, _⟩ := fiber
  cases seed
  rw [start, present]
  exact refuses_execute launched refuses _ _ _ _

theorem held_setRendezvous {callback : CallbackId} {stack : List (Frame σ)}
    (parked : heap.suspension? callback = some { fiber := id, state := .parked stack })
    (single : (held heap thread id).card ≤ 1) :
    held (heap.setRendezvous callback .resumed) thread id = 0 := by
  obtain ⟨rest, before, after⟩ := Heap.places_setRendezvous parked .resumed id
  have moved : (heap.setRendezvous callback .resumed).places id = rest :=
    after.trans (zero_add rest)
  rw [held, before, Suspension.places_parked, add_assoc] at single
  rw [held, moved]
  exact eq_zero_of_card_add_le_one single (Multiset.singleton_ne_zero _)

/-- A fiber that waits for a callback goes on with the value, unless its executor drops the task.
The callback is used up. -/
theorem resumes_completeCallback {callback : CallbackId} {stack : List (Frame σ)}
    (parked : heap.suspension? callback = some { fiber := id, state := .parked stack })
    (single : (held heap thread id).card ≤ 1) (value : Erased) :
    let after := completeCallback heap thread callback value
    after.1.suspension? callback = some { fiber := id, state := .resumed } ∧
      (held after.1 after.2 id = {.active (.node (.succeed value)) stack} ∨
        held after.1 after.2 id = 0) := by
  have resumed : completeCallback heap thread callback value =
      resume (heap.setRendezvous callback .resumed) thread id value stack := by
    rw [completeCallback, parked]
  have nowhere := held_setRendezvous parked single
  obtain ⟨_, suspensions, places, _⟩ :=
    executes_resume (heap.setRendezvous callback .resumed) thread id value stack
  obtain ⟨gained, onThread, inHeap⟩ := places id
  obtain ⟨heapEmpty, threadEmpty⟩ := add_eq_zero.mp nowhere
  rw [threadEmpty, add_zero] at onThread
  rw [heapEmpty, add_zero] at inHeap
  simp only [resumed, held, onThread]
  refine ⟨?_, inHeap.imp_left fun moved => moved.trans (if_pos rfl)⟩
  rw [Heap.suspension?, suspensions]
  refine (heap.suspension?_setRendezvous callback callback .resumed).trans ?_
  rw [if_pos rfl, parked]
  rfl

/-- The frames that waited for a callback are gone, if the executor refuses to go on with them. -/
theorem refuses_completeCallback {callback : CallbackId} {value : Erased} (knows : heap.Knows id)
    (running : heap.poll id = none) (single : (held heap thread id).card ≤ 1)
    (resumed : resumption? heap thread callback = some (id, executor))
    (refuses : heap.refusal? executor = some payload) :
    Refuses thread id payload (completeCallback heap thread callback value) := by
  unfold resumption? at resumed
  split at resumed
  next fiber stack parked =>
    split at resumed
    next busy =>
      cases resumed
      obtain ⟨queue, pending⟩ := Option.isSome_iff_exists.mp busy
      have stranded : Stranded (heap.setRendezvous callback .resumed) thread id :=
        ⟨knows, held_setRendezvous parked single, running⟩
      rw [completeCallback, parked]
      simp only [resume, pending]
      rw [Heap.executorOf, Heap.fiber?, (Heap.tables_report _ _ _ _).1]
      exact refuses_execute stranded refuses _ _ _ _
    next => cases resumed
  next => cases resumed

theorem refuses_shift {fiber : FiberState σ} {stack : List (Frame σ)}
    (alone : Alone heap thread id fiber) (refuses : heap.refusal? executor = some payload) :
    Refuses thread id payload (interpret heap thread id stack (.shift executor)) := by
  have running : heap.poll id = none := (Heap.poll_of_fiber? alone.state).trans alone.running
  have moved : Stranded (heap.setExecutor id executor) thread id := by
    refine ⟨(heap.knows_updateFiber id id _).mpr alone.knows, ?_, ?_⟩
    · rw [held, Heap.places_setExecutor]
      exact alone.nowhere
    · have kept := heap.poll_updateFiber id id (f := fun fiber =>
        { fiber with executor := executor })
        fun _ => rfl
      exact kept.trans running
  exact refuses_execute moved refuses _ _ _ _

theorem held_push (heap : Heap σ) (thread : Thread σ) (activation : Activation σ) (id : FiberId) :
    held heap (thread.push activation) id = activation.places id + held heap thread id := by
  rw [held, held, Thread.places_push, add_left_comm]

theorem refuses_fork {parent : FiberId} {effect : Node σ} {stack : List (Frame σ)}
    (fresh : held heap (thread.push (.loop parent (.node (.fork effect)) stack)) heap.nextFiber = 0)
    (refuses : heap.refusal? (heap.executorOf parent) = some payload) :
    Refuses (refocus thread parent (.value ⟨.context, heap.nextFiber⟩) stack) heap.nextFiber payload
      (fork heap thread parent effect stack) := by
  obtain ⟨event, reported, child, rfl, next, seed, alone, executor, forked⟩ :=
    exists_fork_eq heap thread parent effect stack
  have fresh : held (heap.report thread.id .debug event)
      (refocus thread parent (.value ⟨.context, heap.nextFiber⟩) stack) heap.nextFiber = 0 := by
    rw [held_push] at fresh
    obtain ⟨own, others⟩ := add_eq_zero.mp fresh
    have other : parent ≠ heap.nextFiber := fun same => by
      rw [Activation.places, if_pos same] at own
      exact Multiset.singleton_ne_zero _ own
    rw [refocus, held_push, Activation.places, if_neg other, zero_add, held, Heap.places_report]
    exact others
  have running : child.exit? = none := by rw [FiberState.exit?, alone]
  rw [← executor, ← Heap.refusal?_of_executors (heap.executors_report thread.id .debug event)]
    at refuses
  rw [← next] at fresh ⊢
  exact forked ▸ refuses_start seed running fresh refuses false

/-! ### Tasks that the interpreter hands over -/

/-- The ways in which the interpreter hands a task to an executor that refuses it. -/
inductive Refused (heap : Heap σ) (thread : Thread σ) :
    Activation σ → FiberId → Payload → Prop where
  | shift {id : FiberId} {stack : List (Frame σ)} {executor : ExecutorId} {payload : Payload}
      (undue : heap.shouldInterrupt id = false) (refuses : heap.refusal? executor = some payload) :
      Refused heap thread (.loop id (.node (.shift executor)) stack) id payload
  | fork {parent : FiberId} {effect : Node σ} {stack : List (Frame σ)} {payload : Payload}
      (undue : heap.shouldInterrupt parent = false)
      (refuses : heap.refusal? (heap.executorOf parent) = some payload) :
      Refused heap thread (.loop parent (.node (.fork effect)) stack) heap.nextFiber payload
  | notified {exit : Exit Erased} {type : Ty} {callback : CallbackId} {rest : List (Observer σ)}
      {id : FiberId} {executor : ExecutorId} {payload : Payload}
      (resumed : resumption? heap thread callback = some (id, executor))
      (refuses : heap.refusal? executor = some payload) :
      Refused heap thread (.notifying exit (.resume type callback :: rest)) id payload

theorem refused_of_eq_some (refused : refused? heap thread activation = some (id, payload)) :
    Refused heap thread activation id payload := by
  obtain ⟨⟨target, executor⟩, handed, refused⟩ := Option.bind_eq_some_iff.mp refused
  obtain ⟨panic, refuses, same⟩ := Option.map_eq_some_iff.mp refused
  obtain ⟨rfl, rfl⟩ := Prod.mk.inj same
  cases activation with
  | loop fiber focus stack =>
    cases focus with
    | node current =>
      simp only [handed?] at handed
      split at handed
      next => cases handed
      next undue =>
        have undue := Bool.eq_false_iff.mpr undue
        cases current with
        | shift =>
          cases handed
          exact .shift undue refuses
        | fork =>
          cases handed
          exact .fork undue refuses
        | _ => cases handed
    | _ => cases handed
  | notifying exit observers =>
    cases observers with
    | nil => cases handed
    | cons observer rest =>
      cases observer with
      | resume type callback => exact .notified handed refuses
      | _ => cases handed
  | _ => cases handed

/-- An activation that has been taken off its thread, if every fiber has one place at most. -/
structure Sound (heap : Heap σ) (thread : Thread σ) (activation : Activation σ) : Prop where
  single : ∀ id, (activation.places id + held heap thread id).card ≤ 1
  unknown : ∀ id, ¬heap.Knows id → activation.places id + held heap thread id = 0
  ended : ∀ id exit, heap.poll id = some exit → activation.places id + held heap thread id = 0

theorem Sound.there (sound : Sound heap thread activation)
    (there : activation.places id + held heap thread id ≠ 0) :
    heap.Knows id ∧ heap.poll id = none := by
  constructor
  · by_contra unknown
    exact there (sound.unknown id unknown)
  · exact Option.eq_none_iff_forall_ne_some.mpr fun exit ended => there (sound.ended id exit ended)

theorem Sound.alone {focus : Focus σ} {stack : List (Frame σ)}
    (sound : Sound heap thread (.loop id focus stack)) (calm : thread.panicking = none) :
    ∃ fiber, Alone heap thread id fiber := by
  have own : (Activation.loop id focus stack).places id ≠ 0 := by
    rw [Activation.places, if_pos rfl]
    exact Multiset.singleton_ne_zero _
  obtain ⟨knows, running⟩ := sound.there fun none => own (add_eq_zero.mp none).1
  have nowhere := eq_zero_of_card_add_le_one (sound.single id) own
  obtain ⟨fiber, present⟩ := knows.exists_fiber
  exact ⟨fiber, knows, present, (Heap.poll_of_fiber? present).symm.trans running, nowhere, calm⟩

theorem places_of_resumption {callback : CallbackId}
    (resumed : resumption? heap thread callback = some (id, executor)) : heap.places id ≠ 0 := by
  unfold resumption? at resumed
  split at resumed
  next fiber stack parked =>
    split at resumed
    next busy =>
      cases resumed
      obtain ⟨rest, before, _⟩ := Heap.places_setRendezvous parked .resumed id
      intro none
      rw [before, Suspension.places_parked] at none
      exact Multiset.singleton_ne_zero _ (add_eq_zero.mp none).1
    next => cases resumed
  next => cases resumed

theorem Sound.waiting {callback : CallbackId} (sound : Sound heap thread activation)
    (resumed : resumption? heap thread callback = some (id, executor)) :
    heap.Knows id ∧ heap.poll id = none :=
  sound.there fun none => places_of_resumption resumed (add_eq_zero.mp (add_eq_zero.mp none).2).1

/-- A fiber that is handed over stands where it is taken from, unless it is new. -/
theorem there_of_refused? (refused : refused? heap thread activation = some (id, payload))
    (knows : heap.Knows id) : activation.places id + held heap thread id ≠ 0 := by
  intro none
  obtain ⟨own, others⟩ := add_eq_zero.mp none
  cases refused_of_eq_some refused with
  | shift =>
    rw [Activation.places, if_pos rfl] at own
    exact Multiset.singleton_ne_zero _ own
  | fork => exact heap.not_knows_nextFiber knows
  | notified resumed => exact places_of_resumption resumed (add_eq_zero.mp others).1

theorem refuses_of_refused? (sound : Sound heap thread activation) (calm : thread.panicking = none)
    (refused : refused? heap thread activation = some (id, payload)) :
    ∃ own, Refuses { thread with control := own ++ thread.control } id payload
      (advance heap thread activation) := by
  cases refused_of_eq_some refused with
  | shift undue refuses =>
    obtain ⟨fiber, alone⟩ := sound.alone calm
    simp only [advance, stepLoop, undue, Bool.false_eq_true, if_false]
    exact ⟨[], refuses_shift alone refuses⟩
  | @fork parent effect stack _ undue refuses =>
    simp only [advance, stepLoop, undue, Bool.false_eq_true, if_false, interpret]
    refine ⟨[_], refuses_fork ?_ refuses⟩
    rw [held_push]
    exact sound.unknown heap.nextFiber heap.not_knows_nextFiber
  | @notified exit type callback rest _ executor _ resumed refuses =>
    obtain ⟨knows, running⟩ := sound.waiting resumed
    refine ⟨[.notifying exit rest], refuses_completeCallback knows running ?_ resumed refuses⟩
    have pushed := held_push heap thread (.notifying exit rest) id
    exact (congrArg Multiset.card pushed).trans_le (sound.single id)

/-! ### Tasks that user code asks for -/

/-- The fiber that a request of user code hands to an executor, and that executor. -/
def requested? {α : Type} (heap : Heap σ) (thread : Thread σ) :
    Code σ α → Option (FiberId × ExecutorId)
  | .complete callback _ _ => resumption? heap thread callback
  | .launch executor _ _ | .launchWith executor _ _ _ | .submit executor _ _ _ =>
    some (heap.nextFiber, executor)
  | _ => none

/-- The fiber that an executor refuses to take in a request of user code, and its panic. -/
def refusedRequest? {α : Type} (heap : Heap σ) (thread : Thread σ) (code : Code σ α) :
    Option (FiberId × Payload) :=
  (requested? heap thread code).bind fun (id, executor) =>
    (heap.refusal? executor).map fun payload => (id, payload)

theorem there_of_refusedRequest? {α : Type} {code : Code σ α}
    (refused : refusedRequest? heap thread code = some (id, payload)) (knows : heap.Knows id) :
    held heap thread id ≠ 0 := by
  obtain ⟨⟨target, executor⟩, asked, refused⟩ := Option.bind_eq_some_iff.mp refused
  obtain ⟨panic, refuses, same⟩ := Option.map_eq_some_iff.mp refused
  obtain ⟨rfl, rfl⟩ := Prod.mk.inj same
  cases code with
  | complete callback value next =>
    exact fun none => places_of_resumption asked (add_eq_zero.mp none).1
  | launch | launchWith | submit =>
    cases asked
    exact absurd knows heap.not_knows_nextFiber
  | _ => cases asked

theorem refuses_of_refusedRequest? {α : Type} {keep : Code σ α → Activation σ} {code : Code σ α}
    (sound : Sound heap thread activation) (holds : activation.Holds keep code)
    (refused : refusedRequest? heap thread code = some (id, payload)) :
    ∃ rest, Refuses (thread.push (keep rest)) id payload (perform heap thread keep code) := by
  obtain ⟨⟨target, executor⟩, asked, refused⟩ := Option.bind_eq_some_iff.mp refused
  obtain ⟨panic, refuses, same⟩ := Option.map_eq_some_iff.mp refused
  obtain ⟨rfl, rfl⟩ := Prod.mk.inj same
  have single : ∀ rest id, (held heap (thread.push (keep rest)) id).card ≤ 1 := fun rest id => by
    rw [held_push, Multiset.card_add, holds.card_places, ← Multiset.card_add]
    exact sound.single id
  have fresh : ∀ rest, held heap (thread.push (keep rest)) heap.nextFiber = 0 := fun rest => by
    have nowhere := sound.unknown heap.nextFiber heap.not_knows_nextFiber
    rw [← Multiset.card_eq_zero, Multiset.card_add, ← holds.card_places rest, ← Multiset.card_add]
      at nowhere
    rw [held_push]
    exact Multiset.card_eq_zero.mp nowhere
  cases code with
  | complete callback value next =>
    obtain ⟨knows, running⟩ := sound.waiting asked
    exact ⟨_, refuses_completeCallback knows running (single _ _) asked refuses⟩
  | launch executor root next =>
    cases asked
    exact ⟨_, refuses_start rfl rfl (fresh _) refuses true⟩
  | launchWith executor root callback next =>
    cases asked
    exact ⟨_, refuses_start rfl rfl (fresh _) refuses true⟩
  | submit executor root type next =>
    cases asked
    have refuses : heap.addMailbox.refusal? executor = some panic := refuses
    have fresh : held heap.addMailbox (thread.push (keep (next heap.nextMailbox)))
        heap.addMailbox.nextFiber = 0 := fresh _
    exact ⟨_, refuses_start rfl rfl fresh refuses true⟩
  | _ => cases asked

end Machine

end Fibers
