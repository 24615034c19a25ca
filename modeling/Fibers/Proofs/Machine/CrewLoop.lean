import Fibers.Proofs.Machine.Crew
import Fibers.Proofs.Machine.Mail
import Fibers.Proofs.Machine.Turn

/-!
# The loops of a crew

What one step of a loop does to the crew of its thread, as long as the fiber goes on, suspends,
forks or moves. Nothing that is under the drain of the crew has a part in it.

## Main results

`Crewed.nodes`: a loop that interprets a node leaves the crew at work, and only a fork changes the
crew. `Crewed.codes`: so does a loop that runs user code.
-/

namespace Fibers

variable {σ : Type} {inline : ExecutorId → Prop} {crew : List FiberId}
  {heap heap' heap'' : Heap σ} {queue : List (Batch σ)} {segment : List (Activation σ)}
  {id target : FiberId} {focus : Focus σ} {stack : List (Frame σ)}
  {answer : Option (FiberId × Ty × MailboxId)}

/-! ### Changes of the heap -/

theorem Crewed.calm_refl (h : Crewed inline crew answer heap queue segment) :
    Calm inline crew answer heap heap where
  knows id mem := (h.members id mem).knows
  progress _ _ := rfl
  owners _ suspension present := ⟨suspension.state, present⟩
  own _ _ _ _ := Iff.rfl
  executors := h.executors
  equipped id mem := (h.members id mem).equipped
  mail _ _ _ _ := rfl

theorem Equipped.of_fibers (h : Equipped inline crew heap id)
    (same : heap'.fibers = heap.fibers) : Equipped inline crew heap' id := by
  obtain ⟨executor, scope⟩ := h
  constructor
  · rwa [Heap.executorOf, Heap.fiber?, same]
  · rwa [Heap.environments, Heap.fiber?, same]

/-- What is in no table of the heap matters to nobody. -/
theorem Calm.tables (h : Calm inline crew answer heap heap') (fibers : heap''.fibers = heap'.fibers)
    (suspensions : heap''.suspensions = heap'.suspensions)
    (executors : heap''.executors = heap'.executors)
    (mailboxes : heap''.mailboxes = heap'.mailboxes) :
    Calm inline crew answer heap heap'' where
  knows id mem := by
    rw [Heap.Knows, fibers]
    exact h.knows id mem
  progress id mem := (Heap.progress_of_fibers fibers id).trans (h.progress id mem)
  owners callback suspension present := by
    rw [Heap.suspension?, suspensions]
    exact h.owners callback suspension present
  own callback id state mem := by
    rw [Heap.suspension?, suspensions]
    exact h.own callback id state mem
  executors executor target := by
    rw [Heap.isInline_of_executors executors]
    exact h.executors executor target
  equipped id mem := (h.equipped id mem).of_fibers fibers
  mail id type mailbox own := by
    rw [mailboxes]
    exact h.mail id type mailbox own

theorem Calm.report (h : Calm inline crew answer heap heap') (thread : ThreadId)
    (severity : Severity)
    (event : Unit → Event) : Calm inline crew answer heap (heap'.report thread severity event) :=
  h.tables (heap'.tables_report thread severity event).1
    (heap'.tables_report thread severity event).2 (heap'.executors_report _ _ _)
    (heap'.mailboxes_report _ _ _)

theorem Calm.noteDefect (h : Calm inline crew answer heap heap') (thread : ThreadId)
    (payload : Payload) : Calm inline crew answer heap (heap'.noteDefect thread payload) := by
  have counted : Calm inline crew answer heap { heap' with defects := heap'.defects + 1 } :=
    h.tables rfl rfl rfl rfl
  exact counted.report _ _ _

theorem Heap.fiber?_updateFiber_of_known {fiber : FiberState σ}
    (present : heap.fiber? id = some fiber) (f : FiberState σ → FiberState σ) :
    (heap.updateFiber id f).fiber? id = some (f fiber) := by
  have found : heap.fibers[id.index]? = some fiber := present
  rw [Heap.fiber?, heap.fibers_updateFiber, if_pos rfl, found]
  rfl

theorem Crewed.fiber?_updateFiber (h : Crewed inline crew answer heap queue segment)
    (mem : id ∈ crew)
    (target_mem : target ∈ crew) (other : id ≠ target) (f : FiberState σ → FiberState σ) :
    (heap.updateFiber target f).fiber? id = heap.fiber? id := by
  rw [Heap.fiber?, heap.fibers_updateFiber, if_neg, Heap.fiber?]
  exact (h.members id mem).knows.index_ne (h.members target target_mem).knows other

/-- A member changes what the heap keeps for it. -/
theorem Crewed.calm_updateFiber (h : Crewed inline crew answer heap queue segment)
    (mem : target ∈ crew)
    {f : FiberState σ → FiberState σ} (progress : ∀ state, (f state).progress = state.progress)
    (executor : ∀ state, inline state.executor → inline (f state).executor)
    (scope : ∀ state, (∀ environment ∈ state.environments,
        environment.Within (elders crew target)) →
      ∀ environment ∈ (f state).environments, environment.Within (elders crew target)) :
    Calm inline crew answer heap (heap.updateFiber target f) where
  knows id mem := (heap.knows_updateFiber target id f).mpr (h.members id mem).knows
  progress id _ := heap.progress_updateFiber target id progress
  owners _ suspension present := ⟨suspension.state, present⟩
  own _ _ _ _ := Iff.rfl
  executors := h.executors
  mail _ _ _ _ := rfl
  equipped id mem' := by
    obtain ⟨executor', scope'⟩ := (h.members id mem').equipped
    by_cases own : id = target
    · subst own
      obtain ⟨state, present⟩ := (h.members id mem).knows.exists_fiber
      have present' := Heap.fiber?_updateFiber_of_known present f
      rw [Heap.executorOf, present] at executor'
      rw [Heap.environments, present] at scope'
      constructor
      · rw [Heap.executorOf, present']
        exact executor state executor'
      · rw [Heap.environments, present']
        exact scope state scope'
    · have present' := h.fiber?_updateFiber mem' mem own f
      constructor
      · rwa [Heap.executorOf, present']
      · rwa [Heap.environments, present']

theorem Crewed.calm_updateFlags (h : Crewed inline crew answer heap queue segment)
    (mem : target ∈ crew)
    (f : InterruptFlags → InterruptFlags) :
    Calm inline crew answer heap (heap.updateFlags target f) :=
  h.calm_updateFiber mem (fun _ => rfl) (fun _ inline => inline) fun _ scope => scope

theorem Crewed.calm_requestInterrupt (h : Crewed inline crew answer heap queue segment)
    (mem : target ∈ crew) (thread : Thread σ) :
    Calm inline crew answer heap (Machine.requestInterrupt heap thread target) := by
  have raised := h.calm_updateFlags mem InterruptFlags.request
  unfold Machine.requestInterrupt
  split
  next =>
    dsimp only
    split
    · exact raised
    · exact raised.report _ _ _
  next => exact h.calm_refl

/-! ### Drains -/

/-- A thread that drains a queue, with some things under way on it. -/
def drainer (thread : Thread σ) (queue : Queue (Batch σ)) (control : List (Activation σ)) :
    Thread σ :=
  { thread with pending := some queue, control := control, panicking := none }

/-- A step leaves a crew at work, whatever is under its drain. -/
def Carries (inline : ExecutorId → Prop) (crew : List FiberId)
    (answer : Option (FiberId × Ty × MailboxId)) (thread : Thread σ)
    (after : List (Activation σ) → Heap σ × Thread σ) : Prop :=
  ∃ heap queue segment, (∀ base, after base = (heap, drainer thread queue (segment ++ base))) ∧
    Crewed inline crew answer heap queue.toList segment

theorem Carries.congr {thread : Thread σ} {after after' : List (Activation σ) → Heap σ × Thread σ}
    (h : Carries inline crew answer thread after) (same : ∀ base, after' base = after base) :
    Carries inline crew answer thread after' := by
  obtain ⟨heap, queue, segment, carries, crewed⟩ := h
  exact ⟨heap, queue, segment, fun base => (same base).trans (carries base), crewed⟩

open Machine

variable {batches : Queue (Batch σ)} {thread : Thread σ} {base : List (Activation σ)}

/-- A batch of a fiber that is at work already waits behind the others. -/
theorem Machine.execute_drainer {executor : ExecutorId} (target : heap.isInline executor = true)
    (batch : Batch σ) : execute heap (drainer thread batches base) executor ⟨batch, false⟩ =
      (heap, drainer thread (batches.push batch) base) := by
  unfold Heap.isInline at target
  unfold execute
  split at target
  next name waiting present =>
    rw [present]
    rfl
  next => cases target

/-! ### Requests -/

/-- A request of confined code, other than to complete its own callback, is answered with no more
handles than the code knows. -/
theorem Crewed.exists_answer {α : Type} {holds : Set FiberId → α → Prop} {owed : Option CallbackId}
    {code : Code σ α} (h : Crewed inline crew answer heap batches.toList segment)
    (confined : code.Confined holds owed (elders crew id)) (going : code.isOver = false)
    (other : ∀ callback value next, code ≠ .complete callback value next)
    (keep : Code σ α → Activation σ) :
    ∃ heap' rest, (∀ base, perform heap (drainer thread batches base) keep code =
        (heap', drainer thread batches (keep rest :: base))) ∧
      Calm inline crew answer heap heap' ∧ rest.Confined holds owed (elders crew id) := by
  cases confined with
  | done | panic => cases going
  | complete => exact absurd rfl (other _ _ _)
  | get rest => exact ⟨heap, _, fun _ => rfl, h.calm_refl, rest heap.world⟩
  | @modify _ _ change _ rest =>
    exact ⟨{ heap with world := change heap.world }, _, fun _ => rfl,
      h.calm_refl.tables rfl rfl rfl rfl, rest⟩
  | @poll _ _ fiber _ mem running ended =>
    refine ⟨heap, _, fun _ => rfl, h.calm_refl, ?_⟩
    cases polled : heap.poll fiber with
    | none => exact running
    | some exit =>
      -- The fiber is an elder, so its exit holds handles on elders only.
      have within := (h.members fiber (mem_of_elder mem).1).exit exit polled
      exact ended exit _ subset_rfl (within.mono (elders_trans h.distinct mem))
  | @interrupt _ _ fiber _ mem rest =>
    exact ⟨requestInterrupt heap (drainer thread batches []) fiber, _, fun _ => rfl,
      h.calm_requestInterrupt (mem_of_elder mem).1 _, rest⟩
  | threadName rest => exact ⟨heap, _, fun _ => rfl, h.calm_refl, rest thread.name⟩
  | clock rest => exact ⟨heap, _, fun _ => rfl, h.calm_refl, rest heap.now⟩
  | @report _ _ event _ rest =>
    exact ⟨heap.report thread.id event.severity fun _ => event, _, fun _ => rfl,
      h.calm_refl.report _ _ _, rest⟩

/-! ### Loops that go on -/

variable {focus' : Focus σ} {stack' : List (Frame σ)}

theorem Segment.of_loop (h : Segment inline crew answer heap [.loop id focus stack]) :
    id ∈ crew ∧ (∀ frame ∈ stack, frame.Confined inline (elders crew id)) ∧
      (focus.Confined inline (elders crew id) ∨
        ∃ callback code, focus = .registering callback code ∧
          Registering crew heap id callback code) := by
  cases h with
  | loop mem confined frames => exact ⟨mem, frames, .inl confined⟩
  | registering mem stage frames => exact ⟨mem, frames, .inr ⟨_, _, rfl, stage⟩⟩

theorem not_called_loop {callback : CallbackId} : ¬Called [.loop id focus stack] callback := by
  rintro ⟨_, _, _, mem, _⟩
  cases List.mem_singleton.mp mem

/-- Above a loop no exit is on its way. -/
theorem Due.of_loop {owner : FiberId} {type : Ty} {mailbox : MailboxId}
    (h : Due heap [.loop owner focus stack] id type mailbox) (segment : List (Activation σ)) :
    Due heap segment id type mailbox := by
  cases h with
  | awaited waits => exact .awaited waits
  | told mem | posted mem | filled mem => cases List.mem_singleton.mp mem
  | given shown ended slot => exact .given shown ended slot

/-- Whoever had work at a loop or behind it still has some, if the fiber of the loop has. -/
theorem placed_of_busy {other : FiberId} {queue' : List (Batch σ)} {segment' : List (Activation σ)}
    (busy : (∃ batch ∈ queue, batch.fiber = other) ∨
      ∃ focus' stack', .loop other focus' stack' ∈ [Activation.loop id focus stack])
    (queued : queue ⊆ queue') (own : Placed heap queue' segment' id) :
    Placed heap queue' segment' other := by
  rcases busy with ⟨batch, mem, same⟩ | ⟨_, _, mem⟩
  · exact .queued (queued mem) same
  · cases List.mem_singleton.mp mem
    exact own

theorem Placed.of_loop {other : FiberId} {queue' : List (Batch σ)} {segment' : List (Activation σ)}
    (h : Placed heap queue [.loop id focus stack] other) (queued : queue ⊆ queue')
    (own : Placed heap' queue' segment' id)
    (parked : ∀ callback stack, heap.suspension? callback = some ⟨other, .parked stack⟩ →
      heap'.suspension? callback = some ⟨other, .parked stack⟩) :
    Placed heap' queue' segment' other := by
  cases h with
  | queued mem same => exact .queued (queued mem) same
  | looping mem =>
    cases List.mem_singleton.mp mem
    exact own
  | parked there => exact .parked (parked _ _ there)

/-- A loop goes on with something that is confined, outside of registrations. -/
theorem Crewed.continues (h : Crewed inline crew answer heap batches.toList [.loop id focus stack])
    (calm : Calm inline crew answer heap heap') (confined : focus'.Confined inline (elders crew id))
    (frames : ∀ frame ∈ stack', frame.Confined inline (elders crew id)) :
    Carries inline crew answer thread fun base =>
      (heap', refocus (drainer thread batches base) id focus' stack') := by
  have h' := h.calm calm
  obtain ⟨mem, _⟩ := Segment.of_loop h.work
  refine ⟨heap', batches, [.loop id focus' stack'], fun _ => rfl, h'.moved h'.queued
    (.loop mem confined frames) (fun _ called => absurd called not_called_loop) ?_
    (fun _ busy => placed_of_busy busy (List.Subset.refl _) (.looping List.mem_cons_self))
    fun _ _ _ _ due => due.of_loop _⟩
  -- What goes on is no registration.
  intro other callback code stack mem
  cases List.mem_singleton.mp mem
  cases confined

/-- User code of a loop makes a request. -/
theorem Crewed.requests (h : Crewed inline crew answer heap batches.toList [.loop id focus stack])
    {α : Type} {holds : Set FiberId → α → Prop} {keep : Code σ α → Focus σ} {code : Code σ α}
    (own : (Activation.loop id focus stack).Holds (fun code => .loop id (keep code) stack) code)
    (going : code.isOver = false) (confined : code.Confined holds none (elders crew id))
    (back : ∀ rest : Code σ α, rest.Confined holds none (elders crew id) →
      (keep rest).Confined inline (elders crew id)) :
    Carries inline crew answer thread fun base =>
      advance heap (drainer thread batches base) (.loop id focus stack) := by
  obtain ⟨heap', rest, performed, calm, confined'⟩ :=
    h.exists_answer confined going (by rintro callback value next rfl; cases confined)
      fun code => .loop id (keep code) stack
  obtain ⟨_, frames, _⟩ := Segment.of_loop h.work
  exact (h.continues calm (back rest confined') frames).congr fun base =>
    (advance_of_holds own going _ _).trans (performed base)

/-- A loop in user code makes a request, or goes on with its result or its panic. -/
theorem Crewed.codes (h : Crewed inline crew answer heap batches.toList [.loop id focus stack])
    (code : (∃ code, focus = .thunk code) ∨ (∃ code, focus = .raising code) ∨
      ∃ code, focus = .building code)
    (confined : focus.Confined inline (elders crew id)) :
    Carries inline crew answer thread fun base =>
      stepLoop heap (drainer thread batches base) id stack focus := by
  obtain ⟨_, frames, _⟩ := Segment.of_loop h.work
  rcases code with ⟨code, rfl⟩ | ⟨code, rfl⟩ | ⟨code, rfl⟩
  all_goals cases confined with | _ code_confined => ?_
  · rcases code.done_or_panics_or_goes with ⟨value, rfl⟩ | ⟨payload, rfl⟩ | going
    · cases code_confined with
      | done within => exact h.continues h.calm_refl (.value within) frames
    · exact h.continues (h.calm_refl.noteDefect thread.id payload) (.cause _) frames
    · exact h.requests (.thunk id code stack) going code_confined
        fun rest confined => .thunk confined
  · rcases code.done_or_panics_or_goes with ⟨cause, rfl⟩ | ⟨payload, rfl⟩ | going
    · exact h.continues h.calm_refl (.cause cause) frames
    · exact h.continues (h.calm_refl.noteDefect thread.id payload) (.cause _) frames
    · exact h.requests (.raising id code stack) going code_confined
        fun rest confined => .raising confined
  · rcases code.done_or_panics_or_goes with ⟨next, rfl⟩ | ⟨payload, rfl⟩ | going
    · cases code_confined with
      | done confined => exact h.continues h.calm_refl (.node confined) frames
    · exact h.continues (h.calm_refl.noteDefect thread.id payload)
        (.node (Node.confined_failNow _)) frames
    · exact h.requests (.building id code stack) going code_confined
        fun rest confined => .building confined

/-! ### Nodes -/

/-- A new suspension is owned by its fiber, and the others stay as they are. -/
theorem Heap.suspension?_addSuspension (heap : Heap σ) (fiber : FiberId) (callback : CallbackId) :
    (heap.addSuspension fiber).suspension? callback =
      if callback = heap.nextCallback then some ⟨fiber, .registering⟩
      else heap.suspension? callback := by
  rw [Heap.suspension?, Heap.addSuspension, Array.getElem?_push]
  by_cases own : callback.index = heap.suspensions.size
  · have same : callback = heap.nextCallback := CallbackId.ext_index own
    rw [if_pos own, if_pos same]
  · have other : callback ≠ heap.nextCallback := fun same => own (congrArg CallbackId.index same)
    rw [if_neg own, if_neg other]
    rfl

theorem Heap.suspension?_nextCallback (heap : Heap σ) :
    heap.suspension? heap.nextCallback = none := Array.getElem?_eq_none_iff.mpr le_rfl

/-- A member suspends: it gets a new callback and begins to register. -/
theorem Crewed.suspends (h : Crewed inline crew answer heap batches.toList [.loop id focus stack])
    {code : Code σ Unit} (busy : code ≠ .done ())
    (stage : (heap.addSuspension id).suspension? heap.nextCallback = some ⟨id, .registering⟩ →
      Registering crew (heap.addSuspension id) id heap.nextCallback code) :
    Carries inline crew answer thread fun base => (heap.addSuspension id,
      refocus (drainer thread batches base) id (.registering heap.nextCallback code) stack) := by
  obtain ⟨mem, frames, _⟩ := Segment.of_loop h.work
  have fresh := heap.suspension?_addSuspension id heap.nextCallback
  rw [if_pos rfl] at fresh
  have old {callback : CallbackId} {suspension : Suspension σ}
      (present : heap.suspension? callback = some suspension) :
      (heap.addSuspension id).suspension? callback = some suspension := by
    rw [heap.suspension?_addSuspension, if_neg, present]
    rintro rfl
    cases heap.suspension?_nextCallback.symm.trans present
  have owners : ∀ callback suspension, heap.suspension? callback = some suspension →
      ∃ state, (heap.addSuspension id).suspension? callback = some ⟨suspension.fiber, state⟩ :=
    fun _ suspension present => ⟨suspension.state, old present⟩
  refine ⟨heap.addSuspension id, batches,
    [.loop id (.registering heap.nextCallback code) stack], fun _ => rfl, ?_⟩
  refine ⟨h.distinct, h.executors, fun other mem => ?_, ?_, h.queued, ?_, ?_,
    fun other type mailbox own => ?_⟩
  · obtain ⟨knows, equipped, exit, observers⟩ := h.members other mem
    exact ⟨knows, equipped.of_fibers rfl, exit, fun observer waits =>
      (observers observer waits).mono owners fun _ => subset_rfl⟩
  · intro callback owner state present mem
    rw [heap.suspension?_addSuspension] at present
    split at present
    next =>
      -- The registration has only just begun, so nobody has to have promised a value yet.
      cases present
      refine .registering fun stack mem => ?_
      cases List.mem_singleton.mp mem
      exact absurd rfl busy
    next other =>
      refine (h.standing callback owner state present mem).mono (fun pledged => pledged.mono
        (fun _ _ _ waits => .inl waits) fun called => absurd called not_called_loop)
        fun code stack mem => ?_
      cases List.mem_singleton.mp mem
      exact absurd rfl other
  · exact .registering mem (stage fresh) frames
  · exact fun other mem running => (h.placed other mem running).of_loop
      (List.Subset.refl _) (.looping List.mem_cons_self) fun _ _ => old
  · obtain ⟨mem, fits, due⟩ := h.answered other type mailbox own
    exact ⟨mem, fits, (due.of_loop _).mono (fun waits => .awaited waits)
      (fun _ _ mem => by cases List.mem_singleton.mp mem) (fun _ mem => mem) (fun mem => mem)
      (fun _ ended => ended) rfl⟩

/-- A loop gives its turn to a batch of its own, behind the others. -/
theorem Crewed.yields (h : Crewed inline crew answer heap batches.toList [.loop id focus stack])
    (calm : Calm inline crew answer heap heap') {executor : ExecutorId} (target : inline executor)
    {current : Node σ} (confined : current.Confined inline (elders crew id)) :
    Carries inline crew answer thread fun base =>
      execute heap' (drainer thread batches base) executor ⟨⟨id, current, stack⟩, false⟩ := by
  have h' := h.calm calm
  obtain ⟨mem, frames, _⟩ := Segment.of_loop h.work
  refine ⟨heap', batches.push ⟨id, current, stack⟩, [],
    fun _ => execute_drainer (h'.executors executor target) _, ?_⟩
  rw [Queue.toList_push]
  have queued : Queued inline crew ⟨id, current, stack⟩ := ⟨mem, confined, frames⟩
  exact h'.moved (List.forall_mem_append.mpr ⟨h.queued, List.forall_mem_singleton.mpr queued⟩)
    .idle (fun _ called => absurd called not_called_loop) (fun _ _ _ _ mem => by cases mem)
    (fun _ busy => placed_of_busy busy (List.subset_append_left _ _)
      (.queued (List.mem_append_right _ List.mem_cons_self) rfl))
    fun _ _ _ _ due => due.of_loop _

/-- Starting a fiber takes its seed and hands it to the executor of the fiber. -/
theorem Machine.start_eq {thread : Thread σ} {fiber : FiberState σ} {effect : Node σ}
    (present : heap.fiber? id = some fiber) (seed : fiber.seed = some effect) (root : Bool) :
    start heap thread id root =
      execute ((heap.updateFiber id fun fiber => { fiber with seed := none }).report thread.id
        .debug fun _ => .fiberStarted id (heap.executorName fiber.executor)) thread fiber.executor
        ⟨⟨id, effect, []⟩, root⟩ := by
  obtain ⟨progress, flags, environments, executor, _⟩ := fiber
  cases seed
  rw [start, present]

/-- A fork makes a fiber with the environments and the executor of its parent, and takes its seed.
Nothing else changes that a crew can see. -/
structure Heap.Bears (heap : Heap σ) (parent : FiberId) (heap' : Heap σ) : Prop where
  knows : ∀ id, heap'.Knows id ↔ heap.Knows id ∨ id = heap.nextFiber
  child : heap'.fiber? heap.nextFiber =
    some ⟨.running [], {}, heap.environments parent, heap.executorOf parent, none⟩
  others : ∀ id, heap.Knows id → heap'.fiber? id = heap.fiber? id
  suspensions : heap'.suspensions = heap.suspensions
  executors : heap'.executors = heap.executors
  mailboxes : heap'.mailboxes = heap.mailboxes

namespace Heap.Bears

variable (bears : heap.Bears id heap')
include bears

theorem meets (callback : CallbackId) : heap'.suspension? callback = heap.suspension? callback := by
  rw [suspension?, bears.suspensions]
  rfl

theorem progress_child : heap'.progress heap.nextFiber = .running [] := by
  rw [progress, bears.child]
  rfl

variable {other : FiberId} (known : heap.Knows other)
include known

theorem progress_eq : heap'.progress other = heap.progress other := by
  rw [progress, bears.others other known]
  rfl

theorem poll_eq : heap'.poll other = heap.poll other := by
  rw [poll, poll, bears.others other known]

theorem observers_eq : heap'.observers other = heap.observers other := by
  rw [observers, bears.progress_eq known]
  rfl

end Heap.Bears

/-- What a fork leaves of the heap: the child is made, and its seed is taken. -/
def Heap.forked (heap : Heap σ) (thread : ThreadId) (parent : FiberId) (effect : Node σ) : Heap σ :=
  let made := (heap.addFiber ⟨.running [], {}, heap.environments parent, heap.executorOf parent,
    some effect⟩).report thread .debug fun _ => .fiberForked parent heap.nextFiber
  (made.updateFiber heap.nextFiber fun fiber => { fiber with seed := none }).report thread .debug
    fun _ => .fiberStarted heap.nextFiber (made.executorName (heap.executorOf parent))

theorem Heap.bears_forked (heap : Heap σ) (thread : ThreadId) (parent : FiberId) (effect : Node σ) :
    heap.Bears parent (heap.forked thread parent effect) := by
  let child : FiberState σ :=
    ⟨.running [], {}, heap.environments parent, heap.executorOf parent, some effect⟩
  let made := (heap.addFiber child).report thread .debug fun _ =>
    .fiberForked parent heap.nextFiber
  let taken := made.updateFiber heap.nextFiber fun fiber => { fiber with seed := none }
  have before := (heap.addFiber child).tables_report thread .debug fun _ =>
    .fiberForked parent heap.nextFiber
  have after := taken.tables_report thread .debug fun _ =>
    .fiberStarted heap.nextFiber (made.executorName (heap.executorOf parent))
  have fibers : (heap.forked thread parent effect).fibers = (heap.launch child).fibers :=
    after.1.trans (congrArg
      (·.modify heap.nextFiber.index fun fiber => { fiber with seed := none }) before.1)
  have found (index : Nat) := heap.fibers_launch child index
  rw [← fibers] at found
  refine ⟨fun other => ?_, ?_, fun other known => ?_, after.2.trans before.2,
    (taken.executors_report _ _ _).trans ((heap.addFiber child).executors_report _ _ _),
    (taken.mailboxes_report _ _ _).trans ((heap.addFiber child).mailboxes_report _ _ _)⟩
  · rw [Heap.Knows, fibers]
    exact heap.knows_launch _ other
  · rw [Heap.fiber?, found]
    exact if_pos rfl
  · obtain ⟨index, small, rfl⟩ := known
    rw [Heap.fiber?, found]
    exact if_neg small.ne

/-- The child of a fork waits behind the others, and its parent goes on with a handle on it. -/
theorem Machine.fork_drainer (target : heap.isInline (heap.executorOf id) = true)
    (effect : Node σ) (stack : List (Frame σ)) :
    fork heap (drainer thread batches base) id effect stack = (heap.forked thread.id id effect,
      drainer thread (batches.push ⟨heap.nextFiber, effect, []⟩)
        (.loop id (.value ⟨.context, heap.nextFiber⟩) stack :: base)) := by
  let child : FiberState σ :=
    ⟨.running [], {}, heap.environments id, heap.executorOf id, some effect⟩
  have present : ((heap.addFiber child).report thread.id .debug fun _ =>
      .fiberForked id heap.nextFiber).fiber? heap.nextFiber = some child := by
    rw [Heap.fiber?, ((heap.addFiber child).tables_report _ _ _).1]
    simp [Heap.addFiber, Heap.nextFiber]
  have same := (heap.bears_forked thread.id id effect).executors
  exact (start_eq present rfl false).trans
    (execute_drainer ((Heap.isInline_of_executors same _).trans target) _)

/-! ### Forks -/

theorem Crewed.nextFiber_not_mem (h : Crewed inline crew answer heap queue segment) :
    heap.nextFiber ∉ crew := fun mem => heap.not_knows_nextFiber (h.members _ mem).knows

/-- Next to a loop outside of registrations, only parked frames are owed anything. -/
theorem standing_of_unparked {other : FiberId} {callback : CallbackId} {state : Rendezvous σ}
    (unparked : ∀ stack, state ≠ .parked stack)
    (unregistered : ∀ callback code, focus ≠ .registering callback code) :
    Standing inline crew heap [.loop id focus stack] other callback state := by
  have apart {code : Code σ Unit} {frames : List (Frame σ)}
      (mem : .loop other (.registering callback code) frames ∈ [Activation.loop id focus stack]) :
      False := by
    cases List.mem_singleton.mp mem
    exact unregistered callback code rfl
  cases state with
  | registering => exact .registering fun stack mem => (apart mem).elim
  | completed => exact .completed fun code stack mem => (apart mem).elim
  | parked stack => exact absurd rfl (unparked stack)
  | resumed => exact .resumed
  | abandoned => exact .abandoned

section Forks

variable (h : Crewed inline crew answer heap batches.toList [.loop id focus stack])
  (bears : heap.Bears id heap')
include h bears

/-- A child has the environments of its parent, and nobody waits for it yet. -/
theorem Crewed.child_member (mem : id ∈ crew) :
    Member inline (recruit id heap.nextFiber crew) answer heap' heap.nextFiber := by
  have parent := h.members id mem
  have youngest := elders_recruit mem h.distinct h.nextFiber_not_mem
  refine ⟨(bears.knows _).mpr (.inr rfl), ⟨?_, ?_⟩, fun exit ended => ?_, fun observer waits => ?_⟩
  · rw [Heap.executorOf, bears.child]
    exact parent.equipped.executor
  · rw [Heap.environments, bears.child]
    exact fun environment mem => (parent.equipped.scope environment mem).mono youngest
  · rw [← Heap.exit?_progress, bears.progress_child] at ended
    cases ended
  · rw [Heap.observers, bears.progress_child] at waits
    cases waits

theorem Crewed.older_member {other : FiberId} (there : other ∈ crew) :
    Member inline (recruit id heap.nextFiber crew) answer heap' other := by
  have grows := elders_mono (sublist_recruit id heap.nextFiber crew)
  obtain ⟨known, ⟨executor, scope⟩, exit, waits⟩ := h.members other there
  refine ⟨(bears.knows other).mpr (.inl known), ⟨?_, ?_⟩, fun last ended => ?_,
    fun observer there' => ?_⟩
  · rw [Heap.executorOf, bears.others other known]
    exact executor
  · rw [Heap.environments, bears.others other known]
    exact fun environment mem => (scope environment mem).mono (grows other)
  · exact (exit last (bears.poll_eq known ▸ ended)).mono (grows other)
  · exact (waits observer (bears.observers_eq known ▸ there')).mono
      (fun callback suspension present =>
        ⟨suspension.state, (bears.meets callback).trans present⟩) grows

theorem Crewed.older_standing {other : FiberId} {callback : CallbackId} {state : Rendezvous σ}
    (there : other ∈ crew) (present : heap.suspension? callback = some ⟨other, state⟩)
    (value : Erased) :
    Standing inline (recruit id heap.nextFiber crew) heap' [.loop id (.value value) stack] other
      callback state := by
  have grows := elders_mono (sublist_recruit id heap.nextFiber crew)
  by_cases parked : ∃ frames, state = .parked frames
  · obtain ⟨frames, rfl⟩ := parked
    cases h.standing callback other _ present there with
    | parked confined pledged =>
      refine .parked (fun frame mem => (confined frame mem).mono (grows other)) ?_
      rcases pledged with ⟨elder, older, type, waits⟩ | called
      · refine .inl ⟨elder, grows other older, type, ?_⟩
        rwa [bears.observers_eq (h.members elder (mem_of_elder older).1).knows]
      · exact absurd called not_called_loop
  · exact standing_of_unparked (not_exists.mp parked) nofun

end Forks

/-- A fork makes a child that waits behind the others, and joins the crew. -/
theorem Crewed.forks (h : Crewed inline crew answer heap batches.toList [.loop id focus stack])
    (unparked : ∀ callback stack, heap.suspension? callback ≠ some ⟨heap.nextFiber, .parked stack⟩)
    {effect : Node σ} (confined : effect.Confined inline (elders crew id)) :
    Carries inline (recruit id heap.nextFiber crew) answer thread fun base =>
      Machine.fork heap (drainer thread batches base) id effect stack := by
  obtain ⟨mem, frames, _⟩ := Segment.of_loop h.work
  have grows := elders_mono (sublist_recruit id heap.nextFiber crew)
  have youngest := elders_recruit mem h.distinct h.nextFiber_not_mem
  have known {other : FiberId} (there : other ∈ crew) := (h.members other there).knows
  have bears := heap.bears_forked thread.id id effect
  refine ⟨heap.forked thread.id id effect, batches.push ⟨heap.nextFiber, effect, []⟩,
    [.loop id (.value ⟨.context, heap.nextFiber⟩) stack],
    fun _ => fork_drainer (h.executors _ (h.members id mem).equipped.executor) effect stack, ?_⟩
  rw [Queue.toList_push]
  refine ⟨nodup_recruit mem h.distinct h.nextFiber_not_mem, fun executor target => ?_,
    fun other there => ?_, fun callback other state present there => ?_,
    List.forall_mem_append.mpr ⟨fun batch there => ?_, List.forall_mem_singleton.mpr ?_⟩, ?_,
    fun other there running => ?_, fun other type mailbox own => ?_⟩
  · rw [Heap.isInline_of_executors bears.executors]
    exact h.executors executor target
  · rcases (mem_recruit_iff mem).mp there with rfl | there
    · exact h.child_member bears mem
    · exact h.older_member bears there
  · rw [bears.meets] at present
    rcases (mem_recruit_iff mem).mp there with rfl | there
    · -- No suspension is parked for a fiber that is yet to be made.
      exact standing_of_unparked (by rintro stack rfl; exact unparked _ _ present) nofun
    · exact h.older_standing bears there present _
  · obtain ⟨own, current, confined⟩ := h.queued batch there
    exact ⟨(mem_recruit_iff mem).mpr (.inr own), current.mono (grows _),
      fun frame mem => (confined frame mem).mono (grows _)⟩
  · exact ⟨(mem_recruit_iff mem).mpr (.inl rfl), confined.mono youngest, fun _ mem => by cases mem⟩
  · -- The parent goes on with a handle on its child, which is an elder of its parent.
    refine .loop ((mem_recruit_iff mem).mpr (.inr mem)) (.value fun handle there => ?_)
      fun frame mem => (frames frame mem).mono (grows id)
    obtain rfl := List.mem_singleton.mp there
    exact recruit_elder heap.nextFiber mem
  · rcases (mem_recruit_iff mem).mp there with rfl | there
    · exact .queued (List.mem_append_right _ List.mem_cons_self) rfl
    · exact (h.placed other there (bears.poll_eq (known there) ▸ running)).of_loop
        (List.subset_append_left _ _) (.looping List.mem_cons_self)
        fun callback stack parked => (bears.meets callback).trans parked
  · obtain ⟨there, fits, due⟩ := h.answered other type mailbox own
    have same : (heap.forked thread.id id effect).mailboxes[mailbox.index]? =
        heap.mailboxes[mailbox.index]? := by rw [bears.mailboxes]
    refine ⟨(mem_recruit_iff mem).mpr (.inr there), fits.congr same, (due.of_loop _).mono
      (fun waits => .awaited ?_) (fun _ _ mem => by cases List.mem_singleton.mp mem)
      (fun _ mem => mem) (fun mem => mem)
      (fun _ ended => (bears.poll_eq (known there)).trans ended) same⟩
    rwa [bears.observers_eq (known there)]

/-- The members of a crew after a step. -/
def crewAfter (crew : List FiberId) (heap : Heap σ) : Option (Activation σ) → List FiberId
  | some (.loop id (.node (.fork _)) _) =>
    if heap.shouldInterrupt id then crew else recruit id heap.nextFiber crew
  | _ => crew

/-- An interruption takes the place of a fork. -/
theorem crewAfter_of_due {current : Node σ} (due : heap.shouldInterrupt id = true) :
    crewAfter crew heap (some (.loop id (.node current) stack)) = crew := by
  unfold crewAfter
  split
  next other effect frames own =>
    cases own
    exact if_pos due
  next => rfl

theorem crewAfter_fork {effect : Node σ} (undue : heap.shouldInterrupt id = false) :
    crewAfter crew heap (some (.loop id (.node (.fork effect)) stack)) =
      recruit id heap.nextFiber crew :=
  if_neg (undue ▸ Bool.false_ne_true)

theorem crewAfter_of_ne_fork {current : Node σ} (other : ∀ effect, current ≠ .fork effect) :
    crewAfter crew heap (some (.loop id (.node current) stack)) = crew := by
  unfold crewAfter
  split
  next _ effect frames own =>
    cases own
    exact absurd rfl (other effect)
  next => rfl

/-- A loop interprets a node. -/
theorem Crewed.nodes {current : Node σ}
    (h : Crewed inline crew answer heap batches.toList [.loop id (.node current) stack])
    (unparked : ∀ callback stack, heap.suspension? callback ≠ some ⟨heap.nextFiber, .parked stack⟩)
    (confined : current.Confined inline (elders crew id)) :
    Carries inline (crewAfter crew heap (some (.loop id (.node current) stack))) answer thread
      fun base =>
      stepLoop heap (drainer thread batches base) id stack (.node current) := by
  obtain ⟨mem, frames, _⟩ := Segment.of_loop h.work
  have pushed {frame : Frame σ} (new : frame.Confined inline (elders crew id)) :
      ∀ other ∈ frame :: stack, other.Confined inline (elders crew id) :=
    List.forall_mem_cons.mpr ⟨new, frames⟩
  cases due : heap.shouldInterrupt id with
  | true =>
    simp only [stepLoop, due, if_true, crewAfter_of_due due]
    exact h.continues ((h.calm_updateFlags mem InterruptFlags.beginFinalizing).report _ _ _)
      (.node (Node.confined_failNow .interrupt)) (pushed (.apply (.constant confined)))
  | false =>
    simp only [stepLoop, due, Bool.false_eq_true, if_false]
    cases confined with
    | succeed within => exact h.continues h.calm_refl (.value within) frames
    | sync code => exact h.continues h.calm_refl (.thunk code) frames
    | flatMap effect continuation =>
      exact h.continues (h.calm_refl.report _ _ _) (.node effect) (pushed (.apply continuation))
    | async code =>
      refine h.suspends (fun same => ?_) fun fresh => .owing fresh (code heap.nextCallback)
      have owing := code heap.nextCallback
      rw [same] at owing
      cases owing
    | await type elder => exact h.suspends (by rintro ⟨⟩) fun fresh => .asking type fresh elder
    | fork effect =>
      rw [crewAfter_fork due]
      exact h.forks unparked effect
    | fail code => exact h.continues h.calm_refl (.raising code) frames
    | fold effect handler =>
      exact h.continues (h.calm_refl.report _ _ _) (.node effect) (pushed (.fold handler))
    | @shift _ executor target =>
      refine h.yields (Calm.report ?_ _ _ _) target (.succeed (by rintro _ ⟨⟩))
      exact h.calm_updateFiber mem (fun _ => rfl) (fun _ _ => target) fun _ scope => scope
    | withStatus effect status =>
      exact h.continues (h.calm_updateFlags mem _) (.node effect)
        (pushed (.fold (.finalizer (.restoreStatus _))))
    | provide effect within =>
      refine h.continues ?_ (.node effect) (pushed (.fold (.finalizer .leaveScope)))
      exact h.calm_updateFiber mem (fun _ => rfl) (fun _ inline => inline) fun _ scope =>
        List.forall_mem_cons.mpr ⟨within, scope⟩
    | access continuation =>
      have scope := (h.members id mem).equipped.scope
      cases provided : heap.environments id with
      | nil =>
        simp only [interpret, provided]
        exact h.continues h.calm_refl (.cause _) frames
      | cons environment outer =>
        simp only [interpret, provided]
        have within := scope environment (provided ▸ List.mem_cons_self)
        exact h.continues h.calm_refl (.building (continuation.applyTo within)) frames
    | restoreStatus status =>
      exact h.continues (h.calm_updateFlags mem _) (.value (by rintro _ ⟨⟩)) frames
    | leaveScope =>
      refine h.continues ?_ (.value (by rintro _ ⟨⟩)) frames
      exact h.calm_updateFiber mem (fun _ => rfl) (fun _ inline => inline)
        fun _ scope environment mem => scope environment (List.mem_of_mem_tail mem)

end Fibers
