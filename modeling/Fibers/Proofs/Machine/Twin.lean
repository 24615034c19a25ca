import Fibers.Proofs.Strand.Step

/-!
# Twins

Two machines are twins if they are the same but for where some fibers stand, and for reports that
tell how many frames a fiber has. `Matching` says which places of a fiber may stand for each other.

## Main results

Whatever is done to the heaps of two machines keeps them twins (`Heap.Twin.report`,
`Heap.Twin.updateFiber`, `Heap.Twin.setRendezvous` and so on). Twins are twins the other way round
(`Heap.Twin.flip`, `Thread.Twin.flip`), and with more liberty (`Heap.Twin.mono`,
`Thread.Twin.mono`).

## Proof strategy

The tables of two heaps are compared row by row (`Aligned`), queues as the lists that they show.
-/

namespace Fibers

variable {σ : Type}

/-- Which places of each fiber may stand for each other. -/
abbrev Matching (σ : Type) : Type := FiberId → Place σ → Place σ → Prop

/-- The same the other way round. -/
def Matching.flip (twins : Matching σ) : Matching σ := fun id place place' => twins id place' place

/-! ### Tables and queues -/

section Aligned

variable {α β : Type} {R R' : Nat → α → β → Prop} {rows : Array α} {rows' : Array β}
  {r r' : α → β → Prop} {item : Option α} {item' : Option β}

theorem rel_mono (h : Option.Rel r item item') (le : ∀ a b, r a b → r' a b) :
    Option.Rel r' item item' := by
  cases h with
  | none => exact .none
  | some same => exact .some (le _ _ same)

theorem rel_flip (h : Option.Rel r item item') {r' : β → α → Prop} (le : ∀ a b, r a b → r' b a) :
    Option.Rel r' item' item := by
  cases h with
  | none => exact .none
  | some same => exact .some (le _ _ same)

theorem rel_refl {r : α → α → Prop} (refl : ∀ a, r a a) (item : Option α) :
    Option.Rel r item item := by
  cases item with
  | none => exact .none
  | some a => exact .some (refl a)

theorem forall₂_flip {items : List α} {items' : List β} (h : List.Forall₂ r items items')
    {r' : β → α → Prop} (le : ∀ a b, r a b → r' b a) : List.Forall₂ r' items' items :=
  List.Forall₂.flip (h.imp le)

/-- The rows of two tables correspond, one by one. -/
def Aligned (R : Nat → α → β → Prop) (rows : Array α) (rows' : Array β) : Prop :=
  ∀ index, Option.Rel (R index) rows[index]? rows'[index]?

theorem Aligned.size_eq (h : Aligned R rows rows') : rows'.size = rows.size := by
  refine Nat.le_antisymm ?_ ?_
  · have last := h rows.size
    rw [Array.getElem?_size] at last
    generalize other : rows'[rows.size]? = row at last
    cases last
    exact Array.getElem?_eq_none_iff.mp other
  · have last := h rows'.size
    rw [Array.getElem?_size] at last
    generalize other : rows[rows'.size]? = row at last
    cases last
    exact Array.getElem?_eq_none_iff.mp other

theorem Aligned.push (h : Aligned R rows rows') {row : α} {row' : β} (new : R rows.size row row') :
    Aligned R (rows.push row) (rows'.push row') := by
  intro index
  rw [Array.getElem?_push, Array.getElem?_push, h.size_eq]
  split
  next last => exact last ▸ .some new
  next => exact h index

theorem Aligned.modify (h : Aligned R rows rows') {target : Nat} {f : α → α} {g : β → β}
    (kept : ∀ row row', R target row row' → R target (f row) (g row')) :
    Aligned R (rows.modify target f) (rows'.modify target g) := by
  intro index
  rw [Array.getElem?_modify, Array.getElem?_modify]
  have old := h index
  split
  next own =>
    subst own
    generalize rows[target]? = row, rows'[target]? = row' at old ⊢
    cases old with
    | none => exact .none
    | some same => exact .some (kept _ _ same)
  next => exact old

theorem Aligned.mono (h : Aligned R rows rows')
    (le : ∀ index row row', R index row row' → R' index row row') : Aligned R' rows rows' :=
  fun index => rel_mono (h index) (le index)

theorem Aligned.flip (h : Aligned R rows rows') {R' : Nat → β → α → Prop}
    (le : ∀ index row row', R index row row' → R' index row' row) : Aligned R' rows' rows :=
  fun index => rel_flip (h index) (le index)

theorem aligned_refl {R : Nat → α → α → Prop} (refl : ∀ index row, R index row row)
    (rows : Array α) : Aligned R rows rows := fun index => rel_refl (refl index) rows[index]?

end Aligned

section Queues

variable {α β : Type} {r r' : α → β → Prop} {queue : Queue α} {queue' : Queue β}

/-- The elements of two queues correspond, one by one. -/
def Queue.Twin (r : α → β → Prop) (queue : Queue α) (queue' : Queue β) : Prop :=
  List.Forall₂ r queue.toList queue'.toList

theorem Queue.popBack?_eq_none_iff (queue : Queue α) :
    queue.popBack? = none ↔ queue.toList = [] := by
  obtain ⟨front, back⟩ := queue
  unfold popBack? toList
  cases back with
  | cons a rest => simp
  | nil => cases same : front.reverse <;> simp_all

namespace Queue.Twin

theorem size_eq (h : queue.Twin r queue') : queue'.size = queue.size := by
  rw [← length_toList, ← length_toList]
  exact (List.Forall₂.length_eq h).symm

theorem push (h : queue.Twin r queue') {a : α} {b : β} (new : r a b) :
    (queue.push a).Twin r (queue'.push b) := by
  rw [Twin, toList_push, toList_push]
  exact List.rel_append h (.cons new .nil)

theorem popFront? (h : queue.Twin r queue') :
    Option.Rel (fun popped popped' => r popped.1 popped'.1 ∧ popped.2.Twin r popped'.2)
      queue.popFront? queue'.popFront? := by
  unfold Twin at h
  cases popped : queue.popFront? with
  | none =>
    rw [(popFront?_eq_none_iff queue).mp popped, List.forall₂_nil_left_iff] at h
    rw [(popFront?_eq_none_iff queue').mpr h]
    exact .none
  | some first =>
    obtain ⟨a, rest⟩ := first
    rw [toList_of_popFront? popped] at h
    cases popped' : queue'.popFront? with
    | none => rw [(popFront?_eq_none_iff queue').mp popped'] at h; cases h
    | some first' =>
      obtain ⟨b, rest'⟩ := first'
      rw [toList_of_popFront? popped'] at h
      cases h with
      | cons same others => exact .some ⟨same, others⟩

theorem popBack? (h : queue.Twin r queue') :
    Option.Rel (fun popped popped' => r popped.1 popped'.1 ∧ popped.2.Twin r popped'.2)
      queue.popBack? queue'.popBack? := by
  have backwards := List.forall₂_reverse_iff.mpr h
  cases popped : queue.popBack? with
  | none =>
    rw [(popBack?_eq_none_iff queue).mp popped, List.reverse_nil, List.forall₂_nil_left_iff,
      List.reverse_eq_nil_iff] at backwards
    rw [(popBack?_eq_none_iff queue').mpr backwards]
    exact .none
  | some last =>
    obtain ⟨a, rest⟩ := last
    rw [toList_of_popBack? popped, List.reverse_concat] at backwards
    cases popped' : queue'.popBack? with
    | none => rw [(popBack?_eq_none_iff queue').mp popped'] at backwards; cases backwards
    | some last' =>
      obtain ⟨b, rest'⟩ := last'
      rw [toList_of_popBack? popped', List.reverse_concat] at backwards
      cases backwards with
      | cons same others => exact .some ⟨same, List.forall₂_reverse_iff.mp others⟩

theorem pop? (h : queue.Twin r queue') (newest : Bool) :
    Option.Rel (fun popped popped' => r popped.1 popped'.1 ∧ popped.2.Twin r popped'.2)
      (queue.pop? newest) (queue'.pop? newest) := by
  unfold Queue.pop?
  split
  · exact h.popBack?
  · exact h.popFront?

theorem mono (h : queue.Twin r queue') (le : ∀ a b, r a b → r' a b) : queue.Twin r' queue' :=
  List.Forall₂.imp le h

theorem flip (h : queue.Twin r queue') {r' : β → α → Prop} (le : ∀ a b, r a b → r' b a) :
    queue'.Twin r' queue := forall₂_flip h le

end Queue.Twin

theorem queue_twin_refl {r : α → α → Prop} (refl : ∀ a, r a a) (queue : Queue α) :
    queue.Twin r queue := List.forall₂_same.mpr fun a _ => refl a

end Queues

/-! ### Parts of a machine -/

/-- The point from which a batch goes on. -/
def Batch.place (batch : Batch σ) : Place σ := .active (.node batch.current) batch.stack

/-- Whether an event tells how many frames a fiber has. -/
def Event.isDepth : Event → Bool
  | .continuationPushed .. | .handlerPushed .. | .continuationPopped .. | .fiberResumed .. => true
  | _ => false

/-- Batches of one fiber. -/
structure Batch.Twin (twins : Matching σ) (batch batch' : Batch σ) : Prop where
  fiber : batch'.fiber = batch.fiber
  place : twins batch.fiber batch.place batch'.place

structure Task.Twin (twins : Matching σ) (task task' : Task σ) : Prop where
  batch : task.batch.Twin twins task'.batch
  isolated : task'.isolated = task.isolated

structure Executor.Twin (twins : Matching σ) (executor executor' : Executor σ) : Prop where
  name : executor'.name = executor.name
  discipline : executor'.discipline = executor.discipline
  waiting : executor.waiting.Twin (Task.Twin twins) executor'.waiting

structure FiberState.Twin (twins : Matching σ) (id : FiberId) (fiber fiber' : FiberState σ) :
    Prop where
  progress : fiber'.progress = fiber.progress
  flags : fiber'.flags = fiber.flags
  environments : fiber'.environments = fiber.environments
  executor : fiber'.executor = fiber.executor
  seed : Option.Rel (fun effect effect' =>
    twins id (.active (.node effect) []) (.active (.node effect') [])) fiber.seed fiber'.seed

inductive Rendezvous.Twin (twins : Matching σ) (id : FiberId) (callback : CallbackId) :
    Rendezvous σ → Rendezvous σ → Prop where
  | registering : Twin twins id callback .registering .registering
  | completed (value : Erased) : Twin twins id callback (.completed value) (.completed value)
  | parked {stack stack' : List (Frame σ)}
      (place : twins id (.suspended callback stack) (.suspended callback stack')) :
      Twin twins id callback (.parked stack) (.parked stack')
  | resumed : Twin twins id callback .resumed .resumed
  | abandoned : Twin twins id callback .abandoned .abandoned

structure Suspension.Twin (twins : Matching σ) (callback : CallbackId)
    (suspension suspension' : Suspension σ) : Prop where
  fiber : suspension'.fiber = suspension.fiber
  state : suspension.state.Twin twins suspension.fiber callback suspension'.state

/-- Heaps that are the same but for where some fibers stand. -/
structure Heap.Twin (twins : Matching σ) (heap heap' : Heap σ) : Prop where
  world : heap'.world = heap.world
  executors : Aligned (fun _ => Executor.Twin twins) heap.executors heap'.executors
  fibers : Aligned (fun index => FiberState.Twin twins (.ofIndex index)) heap.fibers heap'.fibers
  suspensions : Aligned (fun index => Suspension.Twin twins ⟨index⟩) heap.suspensions
    heap'.suspensions
  mailboxes : heap'.mailboxes = heap.mailboxes
  timers : heap'.timers = heap.timers
  now : heap'.now = heap.now
  defects : heap'.defects = heap.defects
  level : heap'.level = heap.level
  events : heap'.events.filter (fun report => !report.2.isDepth) =
    heap.events.filter fun report => !report.2.isDepth

inductive Activation.Twin (twins : Matching σ) : Activation σ → Activation σ → Prop where
  | program (code : Code σ Unit) : Twin twins (.program code) (.program code)
  | callback (code : Code σ Unit) : Twin twins (.callback code) (.callback code)
  | posting (mailbox : MailboxId) (exit : Exit Erased) :
      Twin twins (.posting mailbox exit) (.posting mailbox exit)
  | opening (mailbox : MailboxId) : Twin twins (.opening mailbox) (.opening mailbox)
  | loop {id : FiberId} {focus focus' : Focus σ} {stack stack' : List (Frame σ)}
      (place : twins id (.active focus stack) (.active focus' stack')) :
      Twin twins (.loop id focus stack) (.loop id focus' stack')
  | notifying (exit : Exit Erased) (observers : List (Observer σ)) :
      Twin twins (.notifying exit observers) (.notifying exit observers)
  | draining {outer outer' : Option (Queue (Batch σ))}
      (queue : Option.Rel (Queue.Twin (Batch.Twin twins)) outer outer') :
      Twin twins (.draining outer) (.draining outer')

/-- Threads that do the same but for where some fibers stand. -/
structure Thread.Twin (twins : Matching σ) (thread thread' : Thread σ) : Prop where
  id : thread'.id = thread.id
  name : thread'.name = thread.name
  role : thread'.role = thread.role
  pending : Option.Rel (Queue.Twin (Batch.Twin twins)) thread.pending thread'.pending
  control : List.Forall₂ (Activation.Twin twins) thread.control thread'.control
  panicking : thread'.panicking = thread.panicking

variable {twins twins' : Matching σ}

theorem Heap.twin_refl (refl : ∀ id place, twins id place place) (heap : Heap σ) :
    heap.Twin twins heap := by
  refine ⟨rfl, aligned_refl ?_ _, aligned_refl ?_ _, aligned_refl ?_ _, rfl, rfl, rfl, rfl, rfl,
    rfl⟩
  · exact fun _ executor => ⟨rfl, rfl, queue_twin_refl (fun _ => ⟨⟨rfl, refl _ _⟩, rfl⟩) _⟩
  · intro index fiber
    refine ⟨rfl, rfl, rfl, rfl, ?_⟩
    cases fiber.seed with
    | none => exact .none
    | some effect => exact .some (refl _ _)
  · intro _ suspension
    obtain ⟨fiber, state⟩ := suspension
    refine ⟨rfl, ?_⟩
    cases state with
    | parked stack => exact .parked (refl _ _)
    | registering | completed | resumed | abandoned => constructor

/-! ### More liberty -/

section Mono

variable (le : ∀ id place place', twins id place place' → twins' id place place')
include le

theorem Batch.Twin.mono {batch batch' : Batch σ} (h : batch.Twin twins batch') :
    batch.Twin twins' batch' := ⟨h.fiber, le _ _ _ h.place⟩

theorem Task.Twin.mono {task task' : Task σ} (h : task.Twin twins task') :
    task.Twin twins' task' := ⟨h.batch.mono le, h.isolated⟩

theorem Executor.Twin.mono {executor executor' : Executor σ} (h : executor.Twin twins executor') :
    executor.Twin twins' executor' :=
  ⟨h.name, h.discipline, h.waiting.mono fun _ _ task => task.mono le⟩

theorem FiberState.Twin.mono {id : FiberId} {fiber fiber' : FiberState σ}
    (h : fiber.Twin twins id fiber') : fiber.Twin twins' id fiber' :=
  ⟨h.progress, h.flags, h.environments, h.executor, rel_mono h.seed fun _ _ => le _ _ _⟩

theorem Rendezvous.Twin.mono {id : FiberId} {callback : CallbackId} {state state' : Rendezvous σ}
    (h : state.Twin twins id callback state') : state.Twin twins' id callback state' := by
  cases h with
  | parked place => exact .parked (le _ _ _ place)
  | registering | completed | resumed | abandoned => constructor

theorem Suspension.Twin.mono {callback : CallbackId} {suspension suspension' : Suspension σ}
    (h : suspension.Twin twins callback suspension') :
    suspension.Twin twins' callback suspension' := ⟨h.fiber, h.state.mono le⟩

theorem Heap.Twin.mono {heap heap' : Heap σ} (h : heap.Twin twins heap') :
    heap.Twin twins' heap' :=
  { h with
    executors := h.executors.mono fun _ _ _ executor => executor.mono le
    fibers := h.fibers.mono fun _ _ _ fiber => fiber.mono le
    suspensions := h.suspensions.mono fun _ _ _ suspension => suspension.mono le }

theorem Activation.Twin.mono {activation activation' : Activation σ}
    (h : activation.Twin twins activation') : activation.Twin twins' activation' := by
  cases h with
  | loop place => exact .loop (le _ _ _ place)
  | draining queue =>
    exact .draining (rel_mono queue fun _ _ queue => queue.mono fun _ _ batch => batch.mono le)
  | program | callback | posting | opening | notifying => constructor

theorem Thread.Twin.mono {thread thread' : Thread σ} (h : thread.Twin twins thread') :
    thread.Twin twins' thread' :=
  { h with
    pending := rel_mono h.pending fun _ _ queue => queue.mono fun _ _ batch => batch.mono le
    control := h.control.imp fun _ _ activation => activation.mono le }

end Mono

/-! ### The other way round -/

theorem Batch.Twin.flip {batch batch' : Batch σ} (h : batch.Twin twins batch') :
    batch'.Twin twins.flip batch :=
  ⟨h.fiber.symm, h.fiber ▸ h.place⟩

theorem Task.Twin.flip {task task' : Task σ} (h : task.Twin twins task') :
    task'.Twin twins.flip task := ⟨h.batch.flip, h.isolated.symm⟩

theorem Executor.Twin.flip {executor executor' : Executor σ} (h : executor.Twin twins executor') :
    executor'.Twin twins.flip executor :=
  ⟨h.name.symm, h.discipline.symm, h.waiting.flip fun _ _ task => task.flip⟩

theorem FiberState.Twin.flip {id : FiberId} {fiber fiber' : FiberState σ}
    (h : fiber.Twin twins id fiber') : fiber'.Twin twins.flip id fiber :=
  ⟨h.progress.symm, h.flags.symm, h.environments.symm, h.executor.symm,
    rel_flip h.seed fun _ _ place => place⟩

theorem Rendezvous.Twin.flip {id : FiberId} {callback : CallbackId} {state state' : Rendezvous σ}
    (h : state.Twin twins id callback state') : state'.Twin twins.flip id callback state := by
  cases h with
  | parked place => exact .parked place
  | registering | completed | resumed | abandoned => constructor

theorem Suspension.Twin.flip {callback : CallbackId} {suspension suspension' : Suspension σ}
    (h : suspension.Twin twins callback suspension') :
    suspension'.Twin twins.flip callback suspension := ⟨h.fiber.symm, h.fiber ▸ h.state.flip⟩

theorem Heap.Twin.flip {heap heap' : Heap σ} (h : heap.Twin twins heap') :
    heap'.Twin twins.flip heap where
  world := h.world.symm
  executors := h.executors.flip fun _ _ _ executor => executor.flip
  fibers := h.fibers.flip fun _ _ _ fiber => fiber.flip
  suspensions := h.suspensions.flip fun _ _ _ suspension => suspension.flip
  mailboxes := h.mailboxes.symm
  timers := h.timers.symm
  now := h.now.symm
  defects := h.defects.symm
  level := h.level.symm
  events := h.events.symm

theorem Activation.Twin.flip {activation activation' : Activation σ}
    (h : activation.Twin twins activation') : activation'.Twin twins.flip activation := by
  cases h with
  | loop place => exact .loop place
  | draining queue =>
    exact .draining (rel_flip queue fun _ _ queue => queue.flip fun _ _ batch => batch.flip)
  | program | callback | posting | opening | notifying => constructor

theorem Thread.Twin.flip {thread thread' : Thread σ} (h : thread.Twin twins thread') :
    thread'.Twin twins.flip thread where
  id := h.id.symm
  name := h.name.symm
  role := h.role.symm
  pending := rel_flip h.pending fun _ _ queue => queue.flip fun _ _ batch => batch.flip
  control := forall₂_flip h.control fun _ _ activation => activation.flip
  panicking := h.panicking.symm

/-! ### Threads -/

theorem Thread.Twin.push {thread thread' : Thread σ} (h : thread.Twin twins thread')
    {activation activation' : Activation σ} (twin : activation.Twin twins activation') :
    (thread.push activation).Twin twins (thread'.push activation') :=
  { h with control := .cons twin h.control }

theorem Thread.Twin.raise {thread thread' : Thread σ} (h : thread.Twin twins thread')
    (payload : Payload) : (thread.raise payload).Twin twins (thread'.raise payload) :=
  { h with panicking := rfl }

/-- A task is queued on both threads, or run at once on both. -/
theorem Thread.Twin.run {thread thread' : Thread σ} (h : thread.Twin twins thread')
    {task task' : Task σ} (twin : task.Twin twins task') :
    (thread.run task).Twin twins (thread'.run task') := by
  have loop : (Activation.loop task.batch.fiber (.node task.batch.current) task.batch.stack).Twin
      twins (.loop task'.batch.fiber (.node task'.batch.current) task'.batch.stack) := by
    rw [twin.batch.fiber]
    exact .loop twin.batch.place
  unfold Thread.run
  rw [twin.isolated]
  have pending := h.pending
  generalize waiting : thread.pending = queue, thread'.pending = queue' at pending
  have begins {outer outer' : Option (Queue (Batch σ))}
      (same : Option.Rel (Queue.Twin (Batch.Twin twins)) outer outer') :
      Thread.Twin twins
        { thread with
          pending := some {}
          control := .loop task.batch.fiber (.node task.batch.current) task.batch.stack
            :: .draining outer :: thread.control }
        { thread' with
          pending := some {}
          control := .loop task'.batch.fiber (.node task'.batch.current) task'.batch.stack
            :: .draining outer' :: thread'.control } :=
    { h with pending := .some .nil, control := .cons loop (.cons (.draining same) h.control) }
  cases pending with
  | none => cases task.isolated <;> exact begins .none
  | some same =>
    cases task.isolated with
    | false => exact { h with pending := .some (same.push twin.batch) }
    | true => exact begins (.some same)

/-! ### Heaps -/

/-- Nothing has happened to a heap but reports of how many frames there are. -/
def Heap.Counts (heap after : Heap σ) : Prop :=
  ∃ events, after = { heap with events := events } ∧
    events.filter (fun report => !report.2.isDepth) =
      heap.events.filter fun report => !report.2.isDepth

theorem Heap.Counts.refl (heap : Heap σ) : heap.Counts heap := ⟨heap.events, rfl, rfl⟩

theorem Heap.Counts.trans {heap middle after : Heap σ} (h : heap.Counts middle)
    (h' : middle.Counts after) : heap.Counts after := by
  obtain ⟨events, rfl, kept⟩ := h
  obtain ⟨events', rfl, kept'⟩ := h'
  exact ⟨events', rfl, kept'.trans kept⟩

theorem Heap.counts_report (heap : Heap σ) (thread : ThreadId) (severity : Severity) {event : Event}
    (depth : event.isDepth = true) :
    heap.Counts (heap.report thread severity fun _ => event) := by
  unfold Heap.report
  split
  · exact ⟨_, rfl, by simp [depth]⟩
  · exact .refl heap

namespace Heap.Twin

variable {heap heap' : Heap σ}

/-! #### What is read -/

theorem executor? (h : heap.Twin twins heap') (id : ExecutorId) :
    Option.Rel (Executor.Twin twins) (heap.executor? id) (heap'.executor? id) :=
  h.executors id.index

theorem fiber? (h : heap.Twin twins heap') (id : FiberId) :
    Option.Rel (FiberState.Twin twins (.ofIndex id.index)) (heap.fiber? id) (heap'.fiber? id) :=
  h.fibers id.index

theorem suspension? (h : heap.Twin twins heap') (callback : CallbackId) :
    Option.Rel (Suspension.Twin twins callback) (heap.suspension? callback)
      (heap'.suspension? callback) := h.suspensions callback.index

theorem nextFiber_eq (h : heap.Twin twins heap') : heap'.nextFiber = heap.nextFiber := by
  rw [nextFiber, nextFiber, h.fibers.size_eq]

theorem nextCallback_eq (h : heap.Twin twins heap') : heap'.nextCallback = heap.nextCallback := by
  rw [nextCallback, nextCallback, h.suspensions.size_eq]

theorem nextMailbox_eq (h : heap.Twin twins heap') : heap'.nextMailbox = heap.nextMailbox := by
  rw [nextMailbox, nextMailbox, h.mailboxes]

theorem isOpen_eq (h : heap.Twin twins heap') (mailbox : MailboxId) :
    heap'.isOpen mailbox = heap.isOpen mailbox := by rw [isOpen, isOpen, h.mailboxes]

theorem slot_eq (h : heap.Twin twins heap') (mailbox : MailboxId) :
    heap'.slot mailbox = heap.slot mailbox := by rw [slot, slot, h.mailboxes]

theorem poll_eq (h : heap.Twin twins heap') (id : FiberId) : heap'.poll id = heap.poll id := by
  have fibers := h.fiber? id
  unfold poll
  generalize heap.fiber? id = state, heap'.fiber? id = state' at fibers ⊢
  cases fibers with
  | none => rfl
  | @some fiber fiber' same =>
    obtain ⟨progress, _, _, _, _⟩ := fiber
    obtain ⟨progress', _, _, _, _⟩ := fiber'
    cases same.progress
    cases progress <;> rfl

theorem shouldInterrupt_eq (h : heap.Twin twins heap') (id : FiberId) :
    heap'.shouldInterrupt id = heap.shouldInterrupt id := by
  have fibers := h.fiber? id
  unfold shouldInterrupt
  generalize heap.fiber? id = state, heap'.fiber? id = state' at fibers ⊢
  cases fibers with
  | none => rfl
  | some same => exact congrArg InterruptFlags.shouldInterrupt same.flags

theorem status_eq (h : heap.Twin twins heap') (id : FiberId) :
    heap'.status id = heap.status id := by
  have fibers := h.fiber? id
  unfold status
  generalize heap.fiber? id = state, heap'.fiber? id = state' at fibers ⊢
  cases fibers with
  | none => rfl
  | some same => exact congrArg InterruptFlags.status same.flags

theorem environments_eq (h : heap.Twin twins heap') (id : FiberId) :
    heap'.environments id = heap.environments id := by
  have fibers := h.fiber? id
  unfold environments
  generalize heap.fiber? id = state, heap'.fiber? id = state' at fibers ⊢
  cases fibers with
  | none => rfl
  | some same => exact same.environments

theorem executorOf_eq (h : heap.Twin twins heap') (id : FiberId) :
    heap'.executorOf id = heap.executorOf id := by
  have fibers := h.fiber? id
  unfold executorOf
  generalize heap.fiber? id = state, heap'.fiber? id = state' at fibers ⊢
  cases fibers with
  | none => rfl
  | some same => exact same.executor

theorem executorName_eq (h : heap.Twin twins heap') (id : ExecutorId) :
    heap'.executorName id = heap.executorName id := by
  have executor := h.executor? id
  unfold executorName
  generalize heap.executor? id = state, heap'.executor? id = state' at executor ⊢
  cases executor with
  | none => rfl
  | some same => exact same.name

theorem waiting (h : heap.Twin twins heap') (id : ExecutorId) :
    (heap.waiting id).Twin (Task.Twin twins) (heap'.waiting id) := by
  have executor := h.executor? id
  unfold Heap.waiting
  generalize heap.executor? id = state, heap'.executor? id = state' at executor ⊢
  cases executor with
  | none => exact .nil
  | some same => exact same.waiting

/-! #### What is changed -/

theorem report (h : heap.Twin twins heap') (thread : ThreadId) (severity : Severity)
    (event : Unit → Event) :
    (heap.report thread severity event).Twin twins (heap'.report thread severity event) := by
  have admits : heap'.level.admits severity = heap.level.admits severity := by rw [h.level]
  unfold Heap.report
  rw [admits]
  split
  · refine { h with events := ?_ }
    simp only [Array.filter_push, h.events]
  · exact h

/-- Reports of how many frames there are may differ, or be missing. -/
theorem of_counts {heap₂ heap₂' : Heap σ} (h : heap.Twin twins heap') (left : heap.Counts heap₂)
    (right : heap'.Counts heap₂') : heap₂.Twin twins heap₂' := by
  obtain ⟨events, rfl, kept⟩ := left
  obtain ⟨events', rfl, kept'⟩ := right
  exact { h with events := kept'.trans (h.events.trans kept.symm) }

theorem noteDefect (h : heap.Twin twins heap') (thread : ThreadId) (payload : Payload) :
    (heap.noteDefect thread payload).Twin twins (heap'.noteDefect thread payload) := by
  have counted : Heap.Twin twins { heap with defects := heap.defects + 1 }
      { heap' with defects := heap'.defects + 1 } :=
    { h with defects := congrArg (· + 1) h.defects }
  exact counted.report _ _ _

theorem updateFiber (h : heap.Twin twins heap') (id : FiberId) {f : FiberState σ → FiberState σ}
    (kept : ∀ fiber fiber', fiber.Twin twins (.ofIndex id.index) fiber' →
      (f fiber).Twin twins (.ofIndex id.index) (f fiber')) :
    (heap.updateFiber id f).Twin twins (heap'.updateFiber id f) :=
  { h with fibers := h.fibers.modify kept }

theorem updateFlags (h : heap.Twin twins heap') (id : FiberId)
    (f : InterruptFlags → InterruptFlags) :
    (heap.updateFlags id f).Twin twins (heap'.updateFlags id f) :=
  h.updateFiber id fun _ _ same => { same with flags := congrArg f same.flags }

theorem enterScope (h : heap.Twin twins heap') (id : FiberId) (environment : Erased) :
    (heap.enterScope id environment).Twin twins (heap'.enterScope id environment) :=
  h.updateFiber id fun _ _ same =>
    { same with environments := congrArg (environment :: ·) same.environments }

theorem leaveScope (h : heap.Twin twins heap') (id : FiberId) :
    (heap.leaveScope id).Twin twins (heap'.leaveScope id) :=
  h.updateFiber id fun _ _ same =>
    { same with environments := congrArg List.tail same.environments }

theorem setExecutor (h : heap.Twin twins heap') (id : FiberId) (executor : ExecutorId) :
    (heap.setExecutor id executor).Twin twins (heap'.setExecutor id executor) :=
  h.updateFiber id fun _ _ same => { same with executor := rfl }

theorem addFiber (h : heap.Twin twins heap') {fiber fiber' : FiberState σ}
    (new : fiber.Twin twins heap.nextFiber fiber') :
    (heap.addFiber fiber).Twin twins (heap'.addFiber fiber') :=
  { h with fibers := h.fibers.push new }

theorem addSuspension (h : heap.Twin twins heap') (id : FiberId) :
    (heap.addSuspension id).Twin twins (heap'.addSuspension id) :=
  { h with suspensions := h.suspensions.push ⟨rfl, .registering⟩ }

theorem setRendezvous (h : heap.Twin twins heap') (callback : CallbackId)
    {state state' : Rendezvous σ}
    (new : ∀ suspension, heap.suspension? callback = some suspension →
      state.Twin twins suspension.fiber callback state') :
    (heap.setRendezvous callback state).Twin twins (heap'.setRendezvous callback state') := by
  refine { h with suspensions := fun index => ?_ }
  simp only [Heap.setRendezvous, Array.getElem?_modify]
  have old := h.suspensions index
  split
  next own =>
    subst own
    unfold Heap.suspension? at new
    generalize heap.suspensions[callback.index]? = row,
      heap'.suspensions[callback.index]? = row' at old new ⊢
    cases old with
    | none => exact .none
    | @some suspension _ same =>
      have state : state.Twin twins suspension.fiber callback state' := new suspension rfl
      exact .some ⟨same.fiber, state⟩
  next => exact old

theorem setWaiting (h : heap.Twin twins heap') (id : ExecutorId) {rest rest' : Queue (Task σ)}
    (left : rest.Twin (Task.Twin twins) rest') :
    (heap.setWaiting id rest).Twin twins (heap'.setWaiting id rest') :=
  { h with executors := h.executors.modify fun _ _ same => { same with waiting := left } }

theorem enqueue (h : heap.Twin twins heap') (id : ExecutorId) {task task' : Task σ}
    (twin : task.Twin twins task') :
    (heap.enqueue id task).Twin twins (heap'.enqueue id task') :=
  { h with
    executors := h.executors.modify fun _ _ same =>
      { same with waiting := same.waiting.push twin } }

theorem addMailbox (h : heap.Twin twins heap') : heap.addMailbox.Twin twins heap'.addMailbox :=
  { h with mailboxes := congrArg (·.push {}) h.mailboxes }

theorem updateMailbox (h : heap.Twin twins heap') (mailbox : MailboxId) (f : Mailbox → Mailbox) :
    (heap.updateMailbox mailbox f).Twin twins (heap'.updateMailbox mailbox f) :=
  { h with mailboxes := congrArg (·.modify mailbox.index f) h.mailboxes }

end Heap.Twin

end Fibers
