import Fibers.Proofs.Machine.Duty
import Fibers.Proofs.World.ForkJoin
import Fibers.Proofs.World.Influence

/-!
# Crews in a run

A thread runs the crew of a root fiber while the other threads of the machine take steps of their
own. The fibers of the crew stand on its own thread or wait for callbacks, so another thread can
change nothing that matters to them unless it completes such a callback or waits for an exit.

## Main results

`World.Run.calm`: what the other threads do leaves a crew as it is. `World.Mans.stays` and
`World.Mans.steps`: a thread that runs a crew does so after any step of the machine, until the crew
has nothing to do (`World.Mans.returns`).
-/

namespace Fibers

variable {σ : Type}

namespace World

variable {run : Nat → World σ} {inline : ExecutorId → Prop} {crew : List FiberId} {n i j : Nat}
  {thread other : Thread σ} {queue : Queue (Batch σ)} {segment base : List (Activation σ)}
  {id root : FiberId} {answer : Option (FiberId × Ty × MailboxId)}

/-! ### Steps of other threads -/

/-- What a fiber has on two threads is part of all that it has. -/
theorem places_add_le {world : World σ} (known : world.threads[i]? = some thread)
    (known' : world.threads[j]? = some other) (ne : i ≠ j) (id : FiberId) :
    thread.places id + other.places id ≤ world.places id := by
  obtain ⟨small, rfl⟩ := List.getElem?_eq_some_iff.mp known
  have whole := ((List.getElem_cons_eraseIdx_perm small).map fun thread =>
    thread.places id).sum_eq
  rw [List.map_cons, List.sum_cons] at whole
  have there : other ∈ world.threads.eraseIdx i :=
    List.mem_eraseIdx_iff_getElem?.mpr ⟨j, ne.symm, known'⟩
  have rest : other.places id ≤ ((world.threads.eraseIdx i).map fun thread =>
      thread.places id).sum := List.le_sum_of_mem (List.mem_map_of_mem there)
  rw [World.places, ← whole]
  exact (add_le_add le_rfl rest).trans (Multiset.le_add_left _ _)

/-- A suspension stays with its fiber. -/
theorem moves_suspension {before after : Scene σ} (moves : before.Moves after)
    {callback : CallbackId} {suspension : Suspension σ}
    (present : before.heap.suspension? callback = some suspension) :
    ∃ state, after.heap.suspension? callback = some ⟨suspension.fiber, state⟩ := by
  have kept (after : Heap σ) (found : ∃ suspension', after.suspension? callback = some suspension' ∧
      suspension'.fiber = suspension.fiber) :
      ∃ state, after.suspension? callback = some ⟨suspension.fiber, state⟩ := by
    obtain ⟨⟨fiber, state⟩, there, rfl⟩ := found
    exact ⟨state, there⟩
  cases moves with
  | idle turn =>
    obtain ⟨suspension', there, own, _⟩ := turn.suspensions callback suspension present
    exact kept _ ⟨suspension', there, own⟩
  | acted heap _ _ _ _ _ turn _ =>
    obtain ⟨suspension', there, own, _⟩ := turn.suspensions callback suspension (heap ▸ present)
    exact kept _ ⟨suspension', there, own⟩

/-- A suspension was there before a step of a thread, or a loop on the thread has made it. -/
theorem exists_owner {thread : Thread σ} {heap : Heap σ} {index : Nat} {suspension : Suspension σ}
    (there : (thread.suspensionsAfter heap)[index]? = some suspension) :
    (∃ before, heap.suspensions[index]? = some before ∧ before.fiber = suspension.fiber) ∨
      ∃ focus stack, .loop suspension.fiber focus stack ∈ thread.control := by
  have met {callback : CallbackId} {f : Rendezvous σ → Rendezvous σ}
      (there : (heap.meet callback f)[index]? = some suspension) :
      ∃ before, heap.suspensions[index]? = some before ∧ before.fiber = suspension.fiber := by
    rw [Heap.meet, Array.getElem?_modify] at there
    split at there
    · obtain ⟨before, present, rfl⟩ := Option.map_eq_some_iff.mp there
      exact ⟨before, present, rfl⟩
    · exact ⟨suspension, there, rfl⟩
  unfold Thread.suspensionsAfter at there
  split at there
  next activation rest control _ =>
    unfold Activation.suspensionsAfter at there
    split at there
    next owner register stack =>
      split at there
      next => exact .inl ⟨suspension, there, rfl⟩
      next =>
        rw [Array.getElem?_push] at there
        split at there
        next =>
          cases there
          exact .inr ⟨_, _, control ▸ List.mem_cons_self⟩
        next => exact .inl ⟨suspension, there, rfl⟩
    next => exact .inl (met there)
    next => exact .inl (met there)
    next =>
      unfold Heap.completed at there
      split at there
      · exact .inl (met there)
      · exact .inl ⟨suspension, there, rfl⟩
  next => exact .inl (met there)
  next => exact .inl ⟨suspension, there, rfl⟩

/-- Only known fibers have suspensions. -/
theorem owners_known {world : World σ} (reached : world.Reachable) {callback : CallbackId}
    {suspension : Suspension σ} (there : world.heap.suspension? callback = some suspension) :
    world.heap.Knows suspension.fiber := by
  obtain ⟨origin, fresh, steps⟩ := reached
  induction steps generalizing suspension with
  | refl =>
    rw [Heap.suspension?, fresh.suspensions] at there
    simp at there
  | @tail world world' steps step ih =>
    have owned := owned_of_steps (owned_of_fresh fresh) steps
    have grows : world.heap.Knows suspension.fiber → world'.heap.Knows suspension.fiber :=
      (scene_moves_of_step owned step).knows
    have old (same : world'.heap.suspensions = world.heap.suspensions) :
        world'.heap.Knows suspension.fiber := by
      rw [Heap.suspension?, same] at there
      exact grows (ih there)
    cases step with
    | @act thread heap threads =>
      rw [Heap.suspension?, heap, Machine.suspensions_step] at there
      rcases exists_owner there with ⟨before, present, own⟩ | ⟨focus, stack, loop⟩
      · exact grows (own ▸ ih present)
      · have place := places_of_loop owned threads.symm.mem_new loop
        exact grows (owned.placed place).1
    | take idle calm waiting left heap threads => exact old (heap ▸ rfl)
    | drop left heap threads => exact old (heap ▸ rfl)
    | begin idle codes heap threads => exact old (heap ▸ rfl)
    | spawn fresh codes control heap threads => exact old (heap ▸ rfl)
    | engage empty heap threads => exact old (heap ▸ rfl)
    | outside fibers executors suspensions threads => exact old suspensions

theorem Run.unowned (h : Run run) (n : Nat) (callback : CallbackId) (state : Rendezvous σ) :
    (run n).heap.suspension? callback ≠ some ⟨(run n).heap.nextFiber, state⟩ := fun there =>
  (run n).heap.not_knows_nextFiber (owners_known (h.reachable n) there)

/-- The fibers of a crew run on the thread of the crew. -/
theorem Run.elsewhere (h : Run run) (ne : i ≠ j)
    (known : (run n).threads[i]? = some (drainer thread queue (segment ++ base)))
    (known' : (run n).threads[j]? = some other)
    (crewed : Crewed inline crew answer (run n).heap queue.toList segment) (mem : id ∈ crew)
    (focus : Focus σ) (stack : List (Frame σ)) : .loop id focus stack ∉ other.control := by
  intro there
  have owned := h.owned n
  have place := places_of_loop owned (List.mem_of_getElem? known') there
  have running : (run n).heap.poll id = none :=
    (owned.placed place).2
  have outside : other.places id ≠ 0 := fun none => by
    have le := Activation.places_le there id
    rw [none, Activation.places, if_pos rfl] at le
    exact Multiset.singleton_ne_zero _ (Multiset.le_zero.mp le)
  -- It cannot be on both threads.
  have absent : (drainer thread queue (segment ++ base)).places id = 0 := by
    have le := (Multiset.card_le_card (places_add_le known known' ne id)).trans (owned.single id)
    rw [add_comm] at le
    exact eq_zero_of_card_add_le_one le outside
  cases crewed.placed id mem running with
  | @queued batch mem own =>
    have le : batch.places id ≤ queuedPlaces id (some queue) :=
      List.le_sum_of_mem (List.mem_map_of_mem mem)
    rw [Batch.places, if_pos own, show queuedPlaces id (some queue) = 0 from
      (add_eq_zero.mp absent).1] at le
    exact Multiset.singleton_ne_zero _ (Multiset.le_zero.mp le)
  | looping mem =>
    have there : _ ∈ (drainer thread queue (segment ++ base)).control :=
      List.mem_append_left base mem
    have le := Activation.places_le there id
    rw [absent, Activation.places, if_pos rfl] at le
    exact Multiset.singleton_ne_zero _ (Multiset.le_zero.mp le)
  | parked parked =>
    cases Multiset.singleton_inj.mp (place.symm.trans (places_of_parked owned parked))

/-- The other threads leave some fibers alone: they wait for no exit of them and complete no
callback of theirs. Handles and callbacks are capabilities, which nobody else has been given; here
they are numbers, so this has to be said. -/
structure Apart (run : Nat → World σ) (i n : Nat) (members : FiberId → Prop) : Prop where
  observers : ∀ j id observer, i ≠ j → members id → ¬RegistersAt run j id n observer
  callbacks : ∀ j id callback state value, i ≠ j → members id →
    (run n).heap.suspension? callback = some ⟨id, state⟩ → ¬CompletesAt run j n callback value

/-- Only the thread of the caller brings an answer into its mailbox. -/
def Sealed (run : Nat → World σ) (answer : Option (FiberId × Ty × MailboxId)) (i n : Nat) : Prop :=
  ∀ id type mailbox, answer = some (id, type, mailbox) → (∀ thread, ¬StepsAt run n i thread) →
    (run (n + 1)).heap.mailboxes[mailbox.index]? = (run n).heap.mailboxes[mailbox.index]?

/-- A thread that registers no observer of a fiber, and does not run it, leaves its progress alone.
-/
theorem StepsAt.progress_eq (steps : StepsAt run n j thread) (h : Run run)
    (other : ¬thread.Runs id) (knows : (run n).heap.Knows id)
    (apart : ∀ observer, ¬RegistersAt run j id n observer) :
    (run (n + 1)).heap.progress id = (run n).heap.progress id := by
  rcases steps.progress_cases h other knows with same | ⟨observer, registers, _⟩
  · exact same
  · obtain ⟨activation, target, next, registered, own⟩ := registers
    exact absurd ⟨thread, activation, target, steps, next, registered, own⟩ (apart observer)

/-- What the other threads do leaves a crew as it is. -/
theorem Run.calm (h : Run run)
    (known : (run n).threads[i]? = some (drainer thread queue (segment ++ base)))
    (crewed : Crewed inline crew answer (run n).heap queue.toList segment)
    (executors : ∀ executor, inline executor → (run (n + 1)).heap.isInline executor = true)
    (apart : Apart run i n (· ∈ crew)) (shut : Sealed run answer i n)
    (still : ∀ thread, ¬StepsAt run n i thread) :
    Calm inline crew answer (run n).heap (run (n + 1)).heap := by
  rcases h.steps_or_rests n with ⟨j, other, steps⟩ | ⟨fibers, suspensions, _⟩
  · have ne : i ≠ j := by
      rintro rfl
      exact still other steps
    have idle {id : FiberId} (mem : id ∈ crew) : ¬other.Runs id := by
      rintro ⟨focus, stack, rest, control⟩
      exact h.elsewhere ne known steps.before crewed mem focus stack (control ▸ List.mem_cons_self)
    -- Another thread runs no member, so it reaches them from outside at most.
    refine ⟨fun id mem => ?_, fun id mem => ?_, fun callback suspension present => ?_,
      fun callback id state mem => ?_, executors, fun id mem => ?_,
      fun id type mailbox own => shut id type mailbox own still⟩
    · exact (h.moves n).knows (crewed.members id mem).knows
    · exact steps.progress_eq h (idle mem) (crewed.members id mem).knows fun observer =>
        apart.observers j id observer ne mem
    · exact moves_suspension (h.moves n) present
    · exact steps.suspension?_iff h (idle mem) (fun state there value =>
        apart.callbacks j id callback state value ne mem there) state
    · obtain ⟨executor, scope⟩ := (crewed.members id mem).equipped
      obtain ⟨fiber, present⟩ := (crewed.members id mem).knows.exists_fiber
      obtain ⟨fiber', present', kept⟩ := steps.kept h (idle mem)
        (crewed.members id mem).knows present
      rw [Heap.executorOf, present] at executor
      rw [Heap.environments, present] at scope
      constructor
      · rw [Heap.executorOf, present']
        dsimp only
        rwa [kept.executor]
      · rw [Heap.environments, present']
        dsimp only
        rwa [kept.environments]
  -- No thread has taken a step, so the fibers and the suspensions are the same.
  · have meets (callback : CallbackId) :
        (run (n + 1)).heap.suspension? callback = (run n).heap.suspension? callback := by
      rw [Heap.suspension?, suspensions]
      rfl
    refine ⟨fun id mem => ?_, fun id mem => Heap.progress_of_fibers fibers id,
      fun callback suspension present => ⟨suspension.state, (meets callback).trans present⟩,
      fun callback id state mem => by rw [meets], executors,
      fun id mem => (crewed.members id mem).equipped.of_fibers fibers,
      fun id type mailbox own => shut id type mailbox own still⟩
    rw [Heap.Knows, fibers]
    exact (crewed.members id mem).knows

/-! ### Descendants -/

/-- The fibers of the run of a root: the root, and whatever these have forked before some moment. -/
inductive Descends (run : Nat → World σ) (root : FiberId) : FiberId → Nat → Prop where
  | root (n : Nat) : Descends run root root n
  | forked {parent child : FiberId} {effect : Node σ} {m n : Nat}
      (parent_descends : Descends run root parent m) (forks : Forks run parent child effect m)
      (before : m < n) : Descends run root child n

theorem Descends.mono {m : Nat} (h : Descends run root id m) (le : m ≤ n) :
    Descends run root id n := by
  cases h with
  | root => exact .root n
  | forked parent forks before => exact .forked parent forks (before.trans_le le)

/-- One more moment brings the children that are forked in it. -/
theorem descends_succ_iff : Descends run root id (n + 1) ↔
    Descends run root id n ∨
      ∃ parent effect, Descends run root parent n ∧ Forks run parent id effect n := by
  constructor
  · intro h
    cases h with
    | root => exact .inl (.root n)
    | @forked parent _ effect m _ descends forks before =>
      rcases Nat.lt_succ_iff_lt_or_eq.mp before with earlier | rfl
      · exact .inl (.forked descends forks earlier)
      · exact .inr ⟨parent, effect, descends, forks⟩
  · rintro (h | ⟨parent, effect, descends, forks⟩)
    · exact h.mono (Nat.le_succ n)
    · exact .forked descends forks (Nat.lt_succ_self n)

theorem Forks.places {child : FiberId} {effect : Node σ} (forks : Forks run id child effect n)
    (h : Run run) : (run n).places id ≠ 0 := by
  obtain ⟨i, thread, stack, steps, next, _, _⟩ := forks
  obtain ⟨_, rest, control⟩ := Thread.next?_eq_some_iff.mp next
  rw [places_of_loop (h.owned n) (List.mem_of_getElem? steps.before)
    (control ▸ List.mem_cons_self)]
  exact Multiset.singleton_ne_zero _

/-- A fiber that is yet to be made has no descendants but itself. -/
theorem Descends.eq_root (descends : Descends run root id n) (h : Run run)
    (unknown : ∀ m < n, ¬(run m).heap.Knows root) : id = root := by
  induction descends with
  | root => rfl
  | @forked parent child effect m n _ forks before ih =>
    obtain rfl := ih fun k earlier => unknown k (earlier.trans before)
    exact absurd ((h.owned m).there (forks.places h)).1 (unknown m before)

/-! ### Threads that run a crew -/

/-- A thread runs the crew of a root, on top of something else. -/
structure Mans (run : Nat → World σ) (inline : ExecutorId → Prop)
    (answer : Option (FiberId × Ty × MailboxId)) (root : FiberId) (i : Nat) (thread : Thread σ)
    (outer : Option (Queue (Batch σ))) (base : List (Activation σ)) (n : Nat) (crew : List FiberId)
    (queue : Queue (Batch σ)) (segment : List (Activation σ)) : Prop where
  known : (run n).threads[i]? = some (drainer thread queue (segment ++ .draining outer :: base))
  crewed : Crewed inline crew answer (run n).heap queue.toList segment
  members : ∀ id, id ∈ crew ↔ Descends run root id n

variable {outer : Option (Queue (Batch σ))}

/-- A fork of a member is a step of the thread that runs the crew. -/
theorem Mans.forks (mans : Mans run inline answer root i thread outer base n crew queue segment)
    (h : Run run) {child : FiberId} {effect : Node σ} (mem : id ∈ crew)
    (forks : Forks run id child effect n) :
    ∃ stack, segment.head? = some (.loop id (.node (.fork effect)) stack) ∧
      (run n).heap.shouldInterrupt id = false ∧ child = (run n).heap.nextFiber ∧
      StepsAt run n i (drainer thread queue (segment ++ .draining outer :: base)) := by
  obtain ⟨j, other, stack, steps, next, undue, rfl⟩ := forks
  obtain ⟨_, rest, control⟩ := Thread.next?_eq_some_iff.mp next
  obtain rfl : i = j := by
    by_contra ne
    exact h.elsewhere ne mans.known steps.before mans.crewed mem _ stack
      (control ▸ List.mem_cons_self)
  cases mans.known.symm.trans steps.before
  refine ⟨stack, ?_, undue, rfl, steps⟩
  cases segment with
  | nil => cases control
  | cons top under =>
    cases control
    rfl

/-- A crew stays as it is while its thread rests. -/
theorem Mans.stays (mans : Mans run inline answer root i thread outer base n crew queue segment)
    (h : Run run)
    (executors : ∀ executor, inline executor → (run (n + 1)).heap.isInline executor = true)
    (apart : Apart run i n (Descends run root · n)) (shut : Sealed run answer i n)
    (still : ∀ thread, ¬StepsAt run n i thread) :
    Mans run inline answer root i thread outer base (n + 1) crew queue segment where
  known := (h.stays_or_steps mans.known (by simp [drainer])).resolve_right (still _)
  crewed := by
    have apart' : Apart run i n (· ∈ crew) :=
      ⟨fun j id observer ne mem => apart.observers j id observer ne ((mans.members id).mp mem),
        fun j id callback state value ne mem =>
          apart.callbacks j id callback state value ne ((mans.members id).mp mem)⟩
    exact mans.crewed.calm (h.calm mans.known mans.crewed executors apart' shut still)
  members id := by
    rw [descends_succ_iff, mans.members]
    refine (or_iff_left ?_).symm
    rintro ⟨parent, effect, descends, forks⟩
    obtain ⟨_, _, _, _, steps⟩ := mans.forks h ((mans.members parent).mpr descends) forks
    exact still _ steps

theorem mem_crewAfter_iff {heap : Heap σ} {next : Option (Activation σ)}
    (loops : ∀ id focus stack, next = some (.loop id focus stack) → id ∈ crew) :
    id ∈ crewAfter crew heap next ↔ id ∈ crew ∨
      ∃ parent effect stack, next = some (.loop parent (.node (.fork effect)) stack) ∧
        heap.shouldInterrupt parent = false ∧ id = heap.nextFiber := by
  unfold crewAfter
  split
  next parent effect stack =>
    split
    next due =>
      refine (or_iff_left ?_).symm
      rintro ⟨_, _, _, ⟨⟩, undue, _⟩
      cases due.symm.trans undue
    next undue =>
      rw [mem_recruit_iff (loops _ _ _ rfl), or_comm]
      refine or_congr_right ⟨fun own => ⟨parent, effect, stack, rfl, ?_, own⟩, ?_⟩
      · exact Bool.eq_false_iff.mpr undue
      · rintro ⟨_, _, _, ⟨⟩, _, own⟩
        exact own
  next other =>
    refine (or_iff_left ?_).symm
    rintro ⟨parent, effect, stack, rfl, _⟩
    exact other _ _ _ rfl

/-- A step of the thread that runs a crew. What is under the drain has no part in it. -/
theorem Mans.steps (mans : Mans run inline answer root i thread outer base n crew queue segment)
    (h : Run run)
    (steps : StepsAt run n i (drainer thread queue (segment ++ .draining outer :: base)))
    (busy : segment ≠ [] ∨ queue.toList ≠ []) :
    ∃ queue' segment', (∀ outer base, Machine.step (run n).heap
          (drainer thread queue (segment ++ .draining outer :: base)) =
        ((run (n + 1)).heap, drainer thread queue' (segment' ++ .draining outer :: base))) ∧
      Mans run inline answer root i thread outer base (n + 1)
        (crewAfter crew (run n).heap segment.head?) queue' segment' := by
  have owned := h.owned n
  have running (id : FiberId) (focus : Focus σ) (stack : List (Frame σ))
      (top : segment.head? = some (.loop id focus stack)) : (run n).heap.poll id = none := by
    have mem : Activation.loop id focus stack ∈ segment := List.mem_of_mem_head? top
    have place := places_of_loop owned (List.mem_of_getElem? mans.known)
      (List.mem_append_left (.draining outer :: base) mem)
    exact (owned.placed place).2
  obtain ⟨heap', queue', segment', stepped, crewed⟩ :=
    mans.crewed.duty thread running (fun _ _ => h.unowned n _ _) busy
  have heap : (run (n + 1)).heap = heap' := by rw [steps.heap, stepped]
  subst heap
  refine ⟨queue', segment', stepped, ⟨?_, crewed, fun id => ?_⟩⟩
  · rw [steps.after, stepped]
  · have loops := mans.crewed.work.loops
    rw [mem_crewAfter_iff loops, descends_succ_iff, mans.members]
    refine or_congr_right ⟨?_, ?_⟩
    · rintro ⟨parent, effect, stack, top, undue, rfl⟩
      -- The crew grows by the child that its topmost loop forks, and by nobody else.
      have mem := loops _ _ _ top
      refine ⟨parent, effect, (mans.members parent).mp mem, i, _, stack, steps, ?_, undue, rfl⟩
      obtain ⟨under, rfl⟩ := List.head?_eq_some_iff.mp top
      rfl
    · rintro ⟨parent, effect, descends, forks⟩
      obtain ⟨stack, top, undue, own, _⟩ :=
        mans.forks h ((mans.members parent).mpr descends) forks
      exact ⟨parent, effect, stack, top, undue, own⟩

/-- A crew that has nothing to do has ended, and its thread goes back to what it had under way. -/
theorem Mans.returns (mans : Mans run inline answer root i thread outer base n crew queue segment)
    (steps : StepsAt run n i (drainer thread queue (segment ++ .draining outer :: base)))
    (idle : segment = []) (empty : queue.toList = []) :
    (run (n + 1)).threads[i]? =
        some { thread with pending := outer, control := base, panicking := none } ∧
      (run (n + 1)).heap = (run n).heap ∧
      ∀ id, Descends run root id n → ∃ exit, (run n).heap.poll id = some exit := by
  subst idle
  have stepped : Machine.step (run n).heap (drainer thread queue (.draining outer :: base)) =
      ((run n).heap, { thread with pending := outer, control := base, panicking := none }) := by
    have none := (queue.popFront?_eq_none_iff).mpr empty
    simp only [Machine.step, drainer, Machine.advance, Option.bind_some, none]
  refine ⟨?_, ?_, fun id descends => ?_⟩
  · rw [steps.after]
    exact congrArg (some ·.2) stepped
  · rw [steps.heap]
    exact congrArg Prod.fst stepped
  · have crewed := mans.crewed
    rw [empty] at crewed
    exact crewed.ended id ((mans.members id).mpr descends)

end World

end Fibers
