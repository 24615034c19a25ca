import Fibers.Proofs.Machine.Answer
import Fibers.Proofs.Machine.Place

/-!
# Handing work around

Executors, callbacks, observers and requests of user code move batches between the heap and a
thread, but they neither make a second place for a fiber nor touch what a fiber holds besides its
place.

## Main result

`Machine.Handover` is that law, and `Machine.exists_perform_handover` proves it of every request of
user code.

## Proof strategy

`Machine.Executes` describes what an executor does with one task. A resumption exchanges the frames
of a suspension for such a task, a root fiber comes with one, and everything else keeps the tables
in which places are held.
-/

namespace Fibers

variable {σ : Type}

/-! ### What is kept -/

/-- The exit of a fiber, if it is done. -/
def FiberState.exit? (fiber : FiberState σ) : Option (Exit Erased) :=
  match fiber.progress with
  | .done exit => some exit
  | .running _ => none

theorem Heap.poll_eq_some_iff {heap : Heap σ} {id : FiberId} {exit : Exit Erased} :
    heap.poll id = some exit ↔
      ∃ fiber, heap.fiber? id = some fiber ∧ fiber.exit? = some exit := by
  cases present : heap.fiber? id with
  | none => simp [Heap.poll, present]
  | some fiber =>
    obtain ⟨progress, flags, environments, executor, seed⟩ := fiber
    cases progress <;> simp [Heap.poll, present, FiberState.exit?]

theorem Heap.poll_of_fiber? {heap : Heap σ} {id : FiberId} {fiber : FiberState σ}
    (present : heap.fiber? id = some fiber) : heap.poll id = fiber.exit? := by
  obtain ⟨progress, flags, environments, executor, seed⟩ := fiber
  rw [Heap.poll, present]
  cases progress <;> rfl

/-- What other fibers, executors and callers leave alone: all but a request for interruption, the
seed and the observers. -/
structure FiberState.Kept (before after : FiberState σ) : Prop where
  environments : after.environments = before.environments
  executor : after.executor = before.executor
  flags : after.flags = before.flags ∨ after.flags = before.flags.request
  exit : after.exit? = before.exit?

theorem FiberState.Kept.refl (fiber : FiberState σ) : fiber.Kept fiber :=
  ⟨rfl, rfl, .inl rfl, rfl⟩

/-- Whether the registration of a suspension is still running. -/
def Rendezvous.isMeeting : Rendezvous σ → Bool
  | .registering => true
  | .completed _ => true
  | _ => false

/-- A suspension stays with its fiber, and its registration is not ended by others. -/
structure Suspension.Kept (before after : Suspension σ) : Prop where
  fiber : after.fiber = before.fiber
  meeting : before.state.isMeeting = true → after.state.isMeeting = true

theorem Suspension.Kept.refl (suspension : Suspension σ) : suspension.Kept suspension :=
  ⟨rfl, id⟩

/-- A loop in a registration belongs to the fiber of the suspension that it registers. -/
def Activation.Meets (heap : Heap σ) : Activation σ → Prop
  | .loop fiber (.registering id _) _ =>
    ∃ suspension, heap.suspension? id = some suspension ∧ suspension.fiber = fiber ∧
      suspension.state.isMeeting = true
  | _ => True

theorem Activation.meets_of_kept {heap heap' : Heap σ} {activation : Activation σ}
    (kept : ∀ callback suspension, heap.suspension? callback = some suspension →
      ∃ suspension', heap'.suspension? callback = some suspension' ∧ suspension.Kept suspension')
    (meets : activation.Meets heap) : activation.Meets heap' := by
  unfold Activation.Meets at meets ⊢
  split at meets
  next =>
    obtain ⟨suspension, present, own, meeting⟩ := meets
    obtain ⟨suspension', present', same⟩ := kept _ suspension present
    exact ⟨suspension', present', same.fiber.trans own, same.meeting meeting⟩
  next => trivial

/-! ### The law -/

/-- What handing work around does to the places of a fiber: some may be lost, and a suspended fiber
may go on with a value. -/
inductive Handed : Multiset (Place σ) → Multiset (Place σ) → Prop where
  | fewer {before after : Multiset (Place σ)} (le : after ≤ before) : Handed before after
  | resumed (callback : CallbackId) (stack : List (Frame σ)) (value : Erased)
      (rest : Multiset (Place σ)) :
      Handed (.suspended callback stack ::ₘ rest)
        (.active (.node (.succeed value)) stack ::ₘ rest)

theorem Handed.eq_zero {before after : Multiset (Place σ)} (h : Handed before after)
    (none : before = 0) : after = 0 := by
  cases h with
  | fewer le => exact Multiset.le_zero.mp (none ▸ le)
  | resumed => exact absurd none (Multiset.cons_ne_zero)

/-- What a thread that is not panicking has begun: no registration, and a loop at most on top of all
others, where no panic reaches it. -/
structure Thread.Extends (before after : Thread σ) : Prop where
  control : ∃ begun, after.control = begun ++ before.control ∧
    ∀ activation ∈ begun, ∀ heap, activation.Meets heap
  covered : before.panicking = none → ∀ activation ∈ after.covered, ∀ id, activation.Runs id →
    activation ∈ before.control

namespace Machine

/-- Work was handed from the heap to a thread or back. -/
structure Handover (heap : Heap σ) (thread : Thread σ) (heap' : Heap σ) (thread' : Thread σ) :
    Prop where
  known : ∀ id, heap.Knows id →
    ∃ gained, thread'.places id = gained + thread.places id ∧
      Handed (heap.places id) (heap'.places id + gained)
  unknown : ∀ id, ¬heap.Knows id → heap.places id = 0 →
    ∃ gained, thread'.places id = gained + thread.places id ∧
      (heap'.places id + gained).card ≤ 1 ∧
      (¬heap'.Knows id → heap'.places id + gained = 0)
  fibers : ∀ (index : Nat) (fiber : FiberState σ), heap.fibers[index]? = some fiber →
    ∃ fiber', heap'.fibers[index]? = some fiber' ∧ fiber.Kept fiber'
  newcomers : ∀ (index : Nat) (fiber : FiberState σ), heap.fibers[index]? = none →
    heap'.fibers[index]? = some fiber → fiber.exit? = none
  suspensions : ∀ callback suspension, heap.suspension? callback = some suspension →
    ∃ suspension', heap'.suspension? callback = some suspension' ∧ suspension.Kept suspension'
  control : thread.Extends thread'

/-- What an executor does with a task: the batch is handed on, or lost. -/
structure Executes (heap : Heap σ) (thread : Thread σ) (task : Task σ) (heap' : Heap σ)
    (thread' : Thread σ) : Prop where
  fibers : heap'.fibers = heap.fibers
  suspensions : heap'.suspensions = heap.suspensions
  places : ∀ id, ∃ gained, thread'.places id = gained + thread.places id ∧
    (heap'.places id + gained = task.batch.places id + heap.places id ∨
      heap'.places id + gained = heap.places id)
  control : thread.Extends thread'

end Machine

/-! ### Executors -/

theorem Thread.extends_refl (thread : Thread σ) : thread.Extends thread :=
  ⟨⟨[], rfl, by simp⟩, fun _ _ mem _ _ => Thread.mem_control_of_covered mem⟩

theorem Thread.extends_raise (thread : Thread σ) (payload : Payload) :
    thread.Extends (thread.raise payload) :=
  ⟨⟨[], rfl, by simp⟩, fun _ _ mem _ _ => mem⟩

theorem Thread.extends_run (thread : Thread σ) (task : Task σ) :
    thread.Extends (thread.run task) := by
  unfold Thread.run
  split
  next => exact ⟨⟨[], rfl, by simp⟩, fun _ _ mem _ _ => Thread.mem_control_of_covered mem⟩
  next =>
    refine ⟨⟨[.loop _ (.node _) _, .draining _], rfl, by simp [Activation.Meets]⟩, ?_⟩
    intro calm activation mem id runs
    simp only [Thread.covered, calm, Option.isSome_none, Bool.false_eq_true, if_false,
      List.tail_cons] at mem
    rcases List.mem_cons.mp mem with rfl | mem
    · cases runs
    · exact mem

theorem Heap.tables_report (heap : Heap σ) (thread : ThreadId) (severity : Severity)
    (event : Unit → Event) :
    (heap.report thread severity event).fibers = heap.fibers ∧
      (heap.report thread severity event).suspensions = heap.suspensions := by
  unfold Heap.report
  split <;> exact ⟨rfl, rfl⟩

namespace Machine

theorem executes_execute (heap : Heap σ) (thread : Thread σ) (executor : ExecutorId)
    (task : Task σ) :
    Executes heap thread task (execute heap thread executor task).1
      (execute heap thread executor task).2 := by
  have lost : Executes heap thread task heap thread :=
    ⟨rfl, rfl, fun id => ⟨0, (zero_add _).symm, .inr (add_zero _)⟩, thread.extends_refl⟩
  unfold execute
  split
  next => exact lost
  next =>
    refine ⟨rfl, rfl, fun id => ⟨task.batch.places id, ?_, .inl ?_⟩, ?_⟩
    · exact thread.places_run task id
    · exact add_comm _ _
    · exact thread.extends_run task
  next known =>
    refine ⟨rfl, rfl, fun id => ⟨0, (zero_add _).symm, .inl ?_⟩, thread.extends_refl⟩
    rw [add_zero, Heap.places_enqueue known]
  next => exact lost
  next =>
    exact ⟨rfl, rfl, fun id => ⟨0, (zero_add _).symm, .inr (add_zero _)⟩, thread.extends_raise _⟩

/-- A report before the task is handed on makes no difference. -/
theorem Executes.of_report {heap heap' : Heap σ} {thread thread' : Thread σ} {task : Task σ}
    {reporter : ThreadId} {severity : Severity} {event : Unit → Event}
    (h : Executes (heap.report reporter severity event) thread task heap' thread') :
    Executes heap thread task heap' thread' := by
  obtain ⟨fibers, suspensions, places, control⟩ := h
  have same := heap.tables_report reporter severity event
  refine ⟨fibers.trans same.1, suspensions.trans same.2, fun id => ?_, control⟩
  simpa only [Heap.places_report] using places id

/-! ### Changes that hand nothing on -/

end Machine

/-- A change of the heap after which fibers and suspensions are what they were. -/
structure Heap.Quiet (before after : Heap σ) : Prop where
  known : ∀ id, before.Knows id ↔ after.Knows id
  fibers : ∀ (index : Nat) (fiber : FiberState σ), before.fibers[index]? = some fiber →
    ∃ fiber', after.fibers[index]? = some fiber' ∧ fiber.Kept fiber'
  suspensions : ∀ callback suspension, before.suspension? callback = some suspension →
    ∃ suspension', after.suspension? callback = some suspension' ∧ suspension.Kept suspension'

/-- A change of the heap that moves no place. -/
structure Heap.Kept (before after : Heap σ) : Prop extends before.Quiet after where
  places : ∀ id, after.places id = before.places id

/-- A change of a thread that begins nothing but code, or a panic. -/
structure Thread.Kept (before after : Thread σ) : Prop where
  pending : after.pending = before.pending
  control : ∃ begun, after.control = begun ++ before.control ∧
    ∀ activation ∈ begun, (∀ id, activation.places id = 0) ∧ ∀ heap, activation.Meets heap

theorem Heap.quiet_of_tables {before after : Heap σ} (fibers : after.fibers = before.fibers)
    (suspensions : after.suspensions = before.suspensions) : before.Quiet after where
  known id := by rw [Heap.Knows, Heap.Knows, fibers]
  fibers index fiber known := ⟨fiber, fibers ▸ known, .refl fiber⟩
  suspensions callback suspension known :=
    ⟨suspension, by rw [Heap.suspension?, suspensions]; exact known, .refl suspension⟩

theorem Heap.kept_of_tables {before after : Heap σ} (fibers : after.fibers = before.fibers)
    (executors : after.executors = before.executors)
    (suspensions : after.suspensions = before.suspensions) : before.Kept after where
  toQuiet := Heap.quiet_of_tables fibers suspensions
  places id := by rw [Heap.places, fibers, executors, suspensions]; rfl

theorem Heap.Kept.refl (heap : Heap σ) : heap.Kept heap :=
  Heap.kept_of_tables rfl rfl rfl

theorem Heap.kept_report (heap : Heap σ) (thread : ThreadId) (severity : Severity)
    (event : Unit → Event) : heap.Kept (heap.report thread severity event) := by
  unfold Heap.report
  split <;> exact Heap.kept_of_tables rfl rfl rfl

theorem Heap.Kept.trans {first second third : Heap σ} (h : first.Kept second)
    (h' : second.Kept third) : first.Kept third where
  places id := (h'.places id).trans (h.places id)
  known id := (h.known id).trans (h'.known id)
  fibers index fiber known := by
    obtain ⟨middle, at_middle, kept⟩ := h.fibers index fiber known
    obtain ⟨last, at_last, kept'⟩ := h'.fibers index middle at_middle
    refine ⟨last, at_last, kept'.environments.trans kept.environments,
      kept'.executor.trans kept.executor, ?_, kept'.exit.trans kept.exit⟩
    rcases kept.flags with same | raised <;> rcases kept'.flags with same' | raised'
    · exact .inl (same'.trans same)
    · exact .inr (raised'.trans (congrArg _ same))
    · exact .inr (same'.trans raised)
    · exact .inr (raised'.trans (by rw [raised]; rfl))
  suspensions callback suspension known := by
    obtain ⟨middle, at_middle, kept⟩ := h.suspensions callback suspension known
    obtain ⟨last, at_last, kept'⟩ := h'.suspensions callback middle at_middle
    exact ⟨last, at_last, kept'.fiber.trans kept.fiber, fun h => kept'.meeting (kept.meeting h)⟩

theorem Heap.fibers_updateFiber (heap : Heap σ) (id : FiberId) (f : FiberState σ → FiberState σ)
    (index : Nat) :
    (heap.updateFiber id f).fibers[index]? =
      if id.index = index then heap.fibers[index]?.map f else heap.fibers[index]? :=
  Array.getElem?_modify

theorem Heap.knows_updateFiber (heap : Heap σ) (fiber id : FiberId)
    (f : FiberState σ → FiberState σ) : (heap.updateFiber fiber f).Knows id ↔ heap.Knows id := by
  simp [Heap.Knows, Heap.updateFiber]

theorem Heap.kept_updateFiber (heap : Heap σ) (id : FiberId) {f : FiberState σ → FiberState σ}
    (seed : ∀ fiber, (f fiber).seed = fiber.seed)
    (kept : ∀ fiber : FiberState σ, fiber.Kept (f fiber)) :
    heap.Kept (heap.updateFiber id f) where
  places other := heap.places_updateFiber id other f seed
  known other := (heap.knows_updateFiber id other f).symm
  fibers index fiber known := by
    rw [Heap.fibers_updateFiber, known]
    split
    · exact ⟨f fiber, rfl, kept fiber⟩
    · exact ⟨fiber, rfl, .refl fiber⟩
  suspensions _ suspension known := ⟨suspension, known, .refl suspension⟩

theorem Heap.suspension?_setRendezvous (heap : Heap σ) (callback other : CallbackId)
    (state : Rendezvous σ) :
    (heap.setRendezvous callback state).suspension? other =
      if callback.index = other.index then
        (heap.suspension? other).map fun suspension => { suspension with state := state }
      else heap.suspension? other :=
  Array.getElem?_modify

theorem CallbackId.ext_index {a b : CallbackId} (h : a.index = b.index) : a = b := by
  cases a
  cases b
  exact congrArg _ h

/-- A suspension without frames, before and after, moves no place. -/
theorem Heap.kept_setRendezvous (heap : Heap σ) {callback : CallbackId}
    {suspension : Suspension σ} (known : heap.suspension? callback = some suspension)
    {state : Rendezvous σ} (before : ∀ stack, suspension.state ≠ .parked stack)
    (after : ∀ stack, state ≠ .parked stack)
    (meeting : suspension.state.isMeeting = true → state.isMeeting = true) :
    heap.Kept (heap.setRendezvous callback state) where
  places id := by
    obtain ⟨rest, placesBefore, placesAfter⟩ := Heap.places_setRendezvous known state id
    rw [placesBefore, placesAfter, Suspension.places_of_not_parked id _ before,
      Suspension.places_of_not_parked id _ after]
  known id := Iff.rfl
  fibers index fiber present := ⟨fiber, present, .refl fiber⟩
  suspensions other otherSuspension present := by
    rw [Heap.suspension?_setRendezvous, present]
    split
    next same =>
      obtain rfl := CallbackId.ext_index same
      cases known.symm.trans present
      exact ⟨_, rfl, rfl, meeting⟩
    next => exact ⟨_, rfl, .refl _⟩

theorem Thread.kept_refl (thread : Thread σ) : thread.Kept thread :=
  ⟨rfl, [], rfl, by simp⟩

theorem Thread.kept_raise (thread : Thread σ) (payload : Payload) :
    thread.Kept (thread.raise payload) :=
  ⟨rfl, [], rfl, by simp⟩

theorem Thread.kept_push (thread : Thread σ) {activation : Activation σ}
    (places : ∀ id, activation.places id = 0) (meets : ∀ heap, activation.Meets heap) :
    thread.Kept (thread.push activation) :=
  ⟨rfl, [activation], rfl, by simpa using ⟨places, meets⟩⟩

theorem Thread.Kept.places {before after : Thread σ} (h : before.Kept after) (id : FiberId) :
    after.places id = before.places id := by
  obtain ⟨begun, control, none⟩ := h.control
  have zero : (begun.map (Activation.places id)).sum = 0 :=
    List.sum_eq_zero fun places mem => by
      obtain ⟨activation, at_activation, rfl⟩ := List.mem_map.mp mem
      exact (none activation at_activation).1 id
  rw [Thread.places, Thread.places, h.pending, control, List.map_append, List.sum_append, zero,
    zero_add]

theorem Thread.Kept.extends {before after : Thread σ} (h : before.Kept after) :
    before.Extends after := by
  obtain ⟨begun, control, none⟩ := h.control
  refine ⟨⟨begun, control, fun activation mem => (none activation mem).2⟩, ?_⟩
  intro _ activation mem id runs
  have mem := Thread.mem_control_of_covered mem
  rw [control, List.mem_append] at mem
  rcases mem with mem | mem
  · exact absurd ((none activation mem).1 id) runs.places_ne_zero
  · exact mem

namespace Machine

theorem Handover.of_kept {heap heap' : Heap σ} {thread thread' : Thread σ}
    (kept : heap.Kept heap') (extended : thread.Kept thread') :
    Handover heap thread heap' thread' where
  known id _ := by
    refine ⟨0, by rw [extended.places, zero_add], .fewer ?_⟩
    rw [kept.places, add_zero]
  unknown id _ none := by
    refine ⟨0, by rw [extended.places, zero_add], ?_, fun _ => ?_⟩ <;>
      simp [kept.places, none]
  fibers := kept.fibers
  newcomers index fiber missing present := by
    have small : heap.fibers.size ≤ index := Array.getElem?_eq_none_iff.mp missing
    have large : index < heap'.fibers.size := (Array.getElem?_eq_some_iff.mp present).1
    obtain ⟨other, known, same⟩ := (kept.known (.ofIndex index)).mpr ⟨index, large, rfl⟩
    have : index = other := congrArg FiberId.index same
    omega
  suspensions := kept.suspensions
  control := extended.extends

/-! ### Callbacks and observers -/

theorem executes_resume (heap : Heap σ) (thread : Thread σ) (id : FiberId) (value : Erased)
    (stack : List (Frame σ)) :
    Executes heap thread ⟨⟨id, .succeed value, stack⟩, false⟩ (resume heap thread id value stack).1
      (resume heap thread id value stack).2 := by
  unfold resume
  dsimp only
  split
  next => exact (executes_execute _ thread _ _).of_report
  next =>
    refine ⟨(heap.tables_report _ _ _).1, (heap.tables_report _ _ _).2,
      fun other => ⟨_, thread.places_run _ other, .inl ?_⟩, thread.extends_run _⟩
    rw [Heap.places_report, add_comm]

/-- Completing a callback hands on the frames of its suspension, if its fiber is waiting. -/
theorem handover_completeCallback (heap : Heap σ) (thread : Thread σ) (callback : CallbackId)
    (value : Erased) :
    Handover heap thread (completeCallback heap thread callback value).1
      (completeCallback heap thread callback value).2 := by
  unfold completeCallback
  split
  next fiber known =>
    refine .of_kept (heap.kept_setRendezvous known ?_ ?_ fun _ => rfl) thread.kept_refl
    · intro stack parked
      cases parked
    · intro stack parked
      cases parked
  next fiber stack known =>
    obtain ⟨fibers, suspensions, places, control⟩ :=
      executes_resume (heap.setRendezvous callback .resumed) thread fiber value stack
    -- The suspension gave up its frames when it was marked as resumed, so what the executor or the
    -- thread gains is what the heap has lost, and nothing is counted twice.
    have handed : ∀ id, ∃ gained,
        (resume (heap.setRendezvous callback .resumed) thread fiber value stack).2.places id =
          gained + thread.places id ∧
        Handed (heap.places id)
          ((resume (heap.setRendezvous callback .resumed) thread fiber value stack).1.places id +
            gained) := by
      intro id
      obtain ⟨gained, onThread, inHeap⟩ := places id
      obtain ⟨rest, before, after⟩ := Heap.places_setRendezvous known .resumed id
      have after : (heap.setRendezvous callback .resumed).places id = rest := by
        rw [after]
        exact zero_add rest
      refine ⟨gained, onThread, ?_⟩
      rw [before]
      rw [after] at inHeap
      rcases inHeap with moved | lost
      · rw [moved]
        by_cases same : fiber = id
        · subst same
          simp only [Suspension.places, Batch.places, if_pos]
          exact .resumed _ stack value rest
        · simp only [Suspension.places, Batch.places, if_neg same, zero_add]
          exact .fewer le_rfl
      · rw [lost]
        exact .fewer (Multiset.le_add_left rest _)
    refine ⟨fun id _ => handed id, fun id _ none => ?_, ?_, ?_, ?_, control⟩
    · obtain ⟨gained, onThread, inHeap⟩ := handed id
      have zero := inHeap.eq_zero none
      exact ⟨gained, onThread, by simp [zero], fun _ => zero⟩
    · intro index state present
      exact ⟨state, by rw [fibers]; exact present, .refl state⟩
    · intro index state missing present
      rw [fibers] at present
      cases missing.symm.trans present
    · intro other suspension present
      rw [Heap.suspension?, suspensions]
      have := heap.suspension?_setRendezvous callback other .resumed
      by_cases same : callback.index = other.index
      · obtain rfl := CallbackId.ext_index same
        cases known.symm.trans present
        rw [if_pos rfl, known] at this
        exact ⟨_, this, rfl, fun meeting => by cases meeting⟩
      · rw [if_neg same, present] at this
        exact ⟨_, this, .refl suspension⟩
  next => exact .of_kept (.refl heap) thread.kept_refl

theorem handover_observe (heap : Heap σ) (thread : Thread σ) (id : FiberId)
    (observer : Observer σ) :
    Handover heap thread (observe heap thread id observer).1
      (observe heap thread id observer).2 := by
  unfold observe
  split
  next =>
    refine .of_kept (heap.kept_updateFiber id (fun fiber => ?_) fun fiber => ?_) thread.kept_refl
    · split <;> rfl
    · split
      next observers running => exact ⟨rfl, rfl, .inl rfl, by simp [FiberState.exit?, running]⟩
      next => exact .refl fiber
  next => exact .of_kept (.refl heap) (thread.kept_push (fun _ => rfl) fun _ => trivial)
  next => exact .of_kept (.refl heap) thread.kept_refl

theorem handover_notify (heap : Heap σ) (thread : Thread σ) (exit : Exit Erased)
    (observer : Observer σ) :
    Handover heap thread (notify heap thread exit observer).1
      (notify heap thread exit observer).2 := by
  cases observer with
  | resume type callback => exact handover_completeCallback heap thread callback _
  | call callback =>
    cases callback
    exact .of_kept (.refl heap) (thread.kept_push (fun _ => rfl) fun _ => trivial)
  | answer type mailbox =>
    exact .of_kept (.refl heap) (thread.kept_push (fun _ => rfl) fun _ => trivial)

theorem kept_requestInterrupt (heap : Heap σ) (thread : Thread σ) (id : FiberId) :
    heap.Kept (requestInterrupt heap thread id) := by
  have requested : heap.Kept (heap.updateFlags id InterruptFlags.request) :=
    heap.kept_updateFiber id (fun _ => rfl) fun fiber => ⟨rfl, rfl, .inr rfl, rfl⟩
  unfold requestInterrupt
  split
  next =>
    dsimp only
    split
    next => exact requested
    next => exact requested.trans (Heap.kept_report _ _ _ _)
  next => exact .refl heap

end Machine

/-! ### New fibers -/

theorem Heap.fiber?_addFiber (heap : Heap σ) (fiber : FiberState σ) :
    (heap.addFiber fiber).fiber? heap.nextFiber = some fiber := by
  simp [Heap.fiber?, Heap.addFiber, Heap.nextFiber]

theorem Heap.report_addFiber (heap : Heap σ) (fiber : FiberState σ) (thread : ThreadId)
    (severity : Severity) (event : Unit → Event) :
    (heap.addFiber fiber).report thread severity event =
      (heap.report thread severity event).addFiber fiber := by
  unfold Heap.report Heap.addFiber
  dsimp only
  split <;> rfl

theorem Heap.nextFiber_report (heap : Heap σ) (thread : ThreadId) (severity : Severity)
    (event : Unit → Event) : (heap.report thread severity event).nextFiber = heap.nextFiber := by
  rw [Heap.nextFiber, (heap.tables_report thread severity event).1, Heap.nextFiber]

/-- A heap with one more fiber, whose seed has been taken. -/
def Heap.launch (heap : Heap σ) (fiber : FiberState σ) : Heap σ :=
  (heap.addFiber fiber).updateFiber heap.nextFiber fun fiber => { fiber with seed := none }

theorem Heap.places_launch (heap : Heap σ) (fiber : FiberState σ) (id : FiberId) :
    (heap.launch fiber).places id = heap.places id := by
  have present : (heap.fibers.push fiber)[heap.fibers.size]? = some fiber := by simp
  obtain ⟨rest, before, after⟩ := exists_tally_modify (FiberState.places id) present
  have rest_eq : rest = tally (FiberState.places id) heap.fibers := by
    rw [tally_push, add_comm] at before
    exact (add_left_cancel before).symm
  simp only [Heap.places, Heap.launch, Heap.updateFiber, Heap.addFiber, Heap.nextFiber,
    FiberId.index_ofIndex, after, rest_eq]
  simp [FiberState.places]

theorem Heap.fibers_launch (heap : Heap σ) (fiber : FiberState σ) (index : Nat) :
    (heap.launch fiber).fibers[index]? =
      if index = heap.fibers.size then some { fiber with seed := none }
      else heap.fibers[index]? := by
  rw [Heap.launch, Heap.fibers_updateFiber]
  simp only [Heap.nextFiber, FiberId.index_ofIndex, Heap.addFiber, Array.getElem?_push]
  by_cases same : index = heap.fibers.size
  · simp [same]
  · simp [same, Ne.symm same]

theorem Heap.knows_launch (heap : Heap σ) (fiber : FiberState σ) (id : FiberId) :
    (heap.launch fiber).Knows id ↔ heap.Knows id ∨ id = heap.nextFiber := by
  simp only [Heap.Knows, Heap.launch, Heap.updateFiber, Heap.addFiber, Heap.nextFiber,
    Array.size_modify, Array.size_push, Nat.lt_succ_iff_lt_or_eq]
  constructor
  · rintro ⟨index, small | rfl, rfl⟩
    · exact .inl ⟨index, small, rfl⟩
    · exact .inr rfl
  · rintro (⟨index, small, rfl⟩ | rfl)
    · exact ⟨index, .inl small, rfl⟩
    · exact ⟨heap.fibers.size, .inr rfl, rfl⟩

theorem Heap.not_knows_nextFiber (heap : Heap σ) : ¬heap.Knows heap.nextFiber := by
  rintro ⟨index, small, same⟩
  have : heap.fibers.size = index := congrArg FiberId.index same
  omega

namespace Machine

theorem executes_start (heap : Heap σ) (thread : Thread σ) {fiber : FiberState σ}
    {effect : Node σ} (seed : fiber.seed = some effect) (root : Bool) :
    Executes (heap.launch fiber) thread ⟨⟨heap.nextFiber, effect, []⟩, root⟩
      (start (heap.addFiber fiber) thread heap.nextFiber root).1
      (start (heap.addFiber fiber) thread heap.nextFiber root).2 := by
  have present := heap.fiber?_addFiber fiber
  obtain ⟨progress, flags, environments, executor, _⟩ := fiber
  cases seed
  rw [start, present]
  exact (executes_execute _ thread executor _).of_report

/-- A new fiber comes with one place, its seed, which goes to its executor. -/
theorem handover_start (heap : Heap σ) (thread : Thread σ) {fiber : FiberState σ}
    {effect : Node σ} (seed : fiber.seed = some effect) (running : fiber.exit? = none)
    (root : Bool) :
    Handover heap thread (start (heap.addFiber fiber) thread heap.nextFiber root).1
      (start (heap.addFiber fiber) thread heap.nextFiber root).2 := by
  obtain ⟨fibers, suspensions, places, control⟩ := executes_start heap thread seed root
  have knows : ∀ id, (start (heap.addFiber fiber) thread heap.nextFiber root).1.Knows id ↔
      heap.Knows id ∨ id = heap.nextFiber := fun id => by
    rw [← heap.knows_launch fiber id, Heap.Knows, Heap.Knows, fibers]
  refine ⟨fun id old => ?_, fun id new none => ?_, fun index state present => ?_,
    fun index state missing present => ?_, ?_, control⟩
  · obtain ⟨gained, onThread, inHeap⟩ := places id
    have other : heap.nextFiber ≠ id := fun same => heap.not_knows_nextFiber (same ▸ old)
    simp only [Batch.places, if_neg other, zero_add, or_self, heap.places_launch] at inHeap
    exact ⟨gained, onThread, .fewer inHeap.le⟩
  · obtain ⟨gained, onThread, inHeap⟩ := places id
    rw [heap.places_launch, none, add_zero] at inHeap
    refine ⟨gained, onThread, ?_, fun unknown => ?_⟩
    · rcases inHeap with moved | lost
      · rw [moved, Batch.places]
        split <;> simp
      · simp [lost]
    · rw [knows, not_or] at unknown
      rcases inHeap with moved | lost
      · rw [moved, Batch.places, if_neg (Ne.symm unknown.2)]
      · exact lost
  · refine ⟨state, ?_, .refl state⟩
    have small : index < heap.fibers.size := (Array.getElem?_eq_some_iff.mp present).1
    rw [fibers, heap.fibers_launch, if_neg small.ne, present]
  · rw [fibers, heap.fibers_launch] at present
    split at present
    next => cases present; exact running
    next => cases missing.symm.trans present
  · intro callback suspension present
    exact ⟨suspension, by rw [Heap.suspension?, suspensions]; exact present, .refl suspension⟩

/-- A fork reports, makes a child that nobody waits for, puts the parent back and starts the child.
-/
theorem exists_fork_eq (heap : Heap σ) (thread : Thread σ) (parent : FiberId) (effect : Node σ)
    (stack : List (Frame σ)) :
    ∃ (event : Unit → Event) (reported : Heap σ) (child : FiberState σ),
      reported = heap.report thread.id .debug event ∧ reported.nextFiber = heap.nextFiber ∧
        child.seed = some effect ∧ child.progress = .running [] ∧
        child.executor = heap.executorOf parent ∧
        fork heap thread parent effect stack =
          start (reported.addFiber child)
            (refocus thread parent (.value ⟨.context, reported.nextFiber⟩) stack)
            reported.nextFiber false := by
  have next := heap.nextFiber_report thread.id .debug fun _ => .fiberForked parent heap.nextFiber
  refine ⟨fun _ => .fiberForked parent heap.nextFiber, _,
    { environments := heap.environments parent, executor := heap.executorOf parent,
      seed := some effect }, rfl, next, rfl, rfl, rfl, ?_⟩
  rw [fork, Heap.report_addFiber, next]

/-- A new mailbox changes no table in which places are held. -/
theorem Handover.of_addMailbox {heap heap' : Heap σ} {thread thread' : Thread σ}
    (h : Handover heap.addMailbox thread heap' thread') : Handover heap thread heap' thread' :=
  ⟨h.known, h.unknown, h.fibers, h.newcomers, h.suspensions, h.control⟩

/-- Taking tasks from an executor only takes places from the heap. -/
theorem Handover.of_setWaiting {heap : Heap σ} {thread thread' : Thread σ}
    {executor : ExecutorId} {rest : Queue (Task σ)}
    (places : ∀ id, ∃ gained, thread'.places id = gained + thread.places id ∧
      (heap.setWaiting executor rest).places id + gained ≤ heap.places id)
    (control : thread.Extends thread') :
    Handover heap thread (heap.setWaiting executor rest) thread' where
  known id _ := by
    obtain ⟨gained, onThread, le⟩ := places id
    exact ⟨gained, onThread, .fewer le⟩
  unknown id _ none := by
    obtain ⟨gained, onThread, le⟩ := places id
    have zero := Multiset.le_zero.mp (none ▸ le)
    exact ⟨gained, onThread, by simp [zero], fun _ => zero⟩
  fibers _ fiber present := ⟨fiber, present, .refl fiber⟩
  newcomers _ _ missing present := by cases missing.symm.trans present
  suspensions _ suspension present := ⟨suspension, present, .refl suspension⟩
  control := control

theorem handover_runTask {heap : Heap σ} (thread : Thread σ) {executor : ExecutorId}
    {before after : List (Task σ)} {task : Task σ} {rest : Queue (Task σ)}
    (waiting : (heap.waiting executor).toList = before ++ task :: after)
    (left : rest.toList = before ++ after) :
    Handover heap thread (heap.setWaiting executor rest) (thread.run task) := by
  refine .of_setWaiting (fun id => ⟨_, thread.places_run task id, le_of_eq ?_⟩)
    (thread.extends_run task)
  rw [heap.places_of_waiting waiting left, add_comm]

theorem handover_discardTasks {heap : Heap σ} (thread : Thread σ) {executor : ExecutorId}
    {rest : Queue (Task σ)} (left : rest.toList.Sublist (heap.waiting executor).toList) :
    Handover heap thread (heap.setWaiting executor rest) thread := by
  refine .of_setWaiting (fun id => ⟨0, (zero_add _).symm, ?_⟩) thread.extends_refl
  rw [add_zero]
  exact heap.places_setWaiting_le left id

/-! ### Requests of user code -/

variable {α : Type}

/-- A request of user code is answered, or, like the wait for a shut mailbox, it stays. Whatever
else it does is to hand work around. -/
theorem exists_perform_handover (heap : Heap σ) (thread : Thread σ) (keep : Code σ α → Activation σ)
    (code : Code σ α) :
    ∃ rest, ((∃ answer, code.answered answer = some rest) ∨ rest = code ∧
        ((∀ payload, code ≠ .panic payload) →
          (perform heap thread keep code).2 = thread.push (keep code))) ∧
      Handover heap (thread.push (keep rest)) (perform heap thread keep code).1
        (perform heap thread keep code).2 := by
  have stays : ∀ (rest : Code σ α), Handover heap (thread.push (keep rest)) heap
      (thread.push (keep rest)) := fun rest => .of_kept (.refl heap) (Thread.kept_refl _)
  cases code with
  | done result => exact ⟨_, .inr ⟨rfl, fun _ => rfl⟩, stays _⟩
  | panic payload =>
    exact ⟨_, .inr ⟨rfl, fun own => absurd rfl (own payload)⟩,
      .of_kept (.refl heap) (Thread.kept_raise _ payload)⟩
  | get next => exact ⟨_, .inl ⟨.world heap.world, rfl⟩, stays _⟩
  | modify change next =>
    exact ⟨_, .inl ⟨.nothing, rfl⟩,
      .of_kept (Heap.kept_of_tables rfl rfl rfl) (Thread.kept_refl _)⟩
  | complete callback value next =>
    exact ⟨_, .inl ⟨.nothing, rfl⟩, handover_completeCallback heap _ callback value⟩
  | completeLater delay callback value next =>
    exact ⟨_, .inl ⟨.nothing, rfl⟩,
      .of_kept (Heap.kept_of_tables rfl rfl rfl) (Thread.kept_refl _)⟩
  | observe fiber type callback next =>
    exact ⟨_, .inl ⟨.nothing, rfl⟩, handover_observe heap _ fiber _⟩
  | poll fiber next => exact ⟨_, .inl ⟨.exit (heap.poll fiber), rfl⟩, stays _⟩
  | interrupt fiber next =>
    exact ⟨_, .inl ⟨.nothing, rfl⟩,
      .of_kept (kept_requestInterrupt heap thread fiber) (Thread.kept_refl _)⟩
  | launch executor root next =>
    exact ⟨_, .inl ⟨.fiber heap.nextFiber, rfl⟩, handover_start heap _ rfl rfl true⟩
  | launchWith executor root callback next =>
    exact ⟨_, .inl ⟨.fiber heap.nextFiber, rfl⟩, handover_start heap _ rfl rfl true⟩
  | submit executor root type next =>
    exact ⟨_, .inl ⟨.mailbox heap.nextMailbox, rfl⟩,
      (handover_start heap.addMailbox _ rfl rfl true).of_addMailbox⟩
  -- What is handed around is a batch of a new root fiber, or a task of an executor.
  | wait mailbox deadline next =>
    rw [perform]
    split
    next => exact ⟨_, .inl ⟨.waited (.opened (heap.slot mailbox)), rfl⟩, stays _⟩
    next =>
      split
      next => exact ⟨_, .inl ⟨.waited .timedOut, rfl⟩, stays _⟩
      next => exact ⟨_, .inr ⟨rfl, fun _ => rfl⟩, stays _⟩
  | runTask executor newest next =>
    rw [perform]
    split
    next task rest popped =>
      obtain ⟨before, after, waiting, left⟩ := Queue.exists_split_of_pop? popped
      exact ⟨_, .inl ⟨.flag true, rfl⟩, handover_runTask _ waiting left⟩
    next => exact ⟨_, .inl ⟨.flag false, rfl⟩, stays _⟩
  | discardTasks executor next =>
    exact ⟨_, .inl ⟨.number (heap.waiting executor).size, rfl⟩,
      handover_discardTasks _ (List.nil_sublist _)⟩
  | threadName next => exact ⟨_, .inl ⟨.text thread.name, rfl⟩, stays _⟩
  | clock next => exact ⟨_, .inl ⟨.number heap.now, rfl⟩, stays _⟩
  | report event next =>
    exact ⟨_, .inl ⟨.nothing, rfl⟩,
      .of_kept (heap.kept_report thread.id event.severity fun _ => event) (Thread.kept_refl _)⟩

end Machine

end Fibers
