import Fibers.Proofs.Machine.Arrival
import Fibers.Proofs.World.Nesting
import Fibers.Proofs.World.Trial

/-!
# Drains

Whoever begins a loop on a thread begins a drain around it, which runs the batches that are queued
on the thread while its loops go on. A drain that begins inside another one sets the queue of the
outer one aside.

## Main results

`World.queue_discipline`: the drains of a thread, and the queue of each of them, are what they
should be after all that happened to them. `World.Drains` says what can happen.

## Proof strategy

`Machine.Left` says what a step of an activation leaves on a thread and which batch comes to it. The
drains of a control stack (`drainsOf`) change only at its top, so the history goes through the steps
of a thread one by one; on the way, `Queued` relates the queues to the history, and `Seated` keeps
the user code that started a root fiber under the drain of that fiber.
-/

namespace Fibers

variable {σ : Type}

/-! ### Drains on a control stack -/

/-- The drains that are under way, innermost first: for each of them the fiber whose batch it is
running, unless the loop of that batch is over, and the queue that it set aside. -/
def drainsOf : List (Activation σ) → List (Option FiberId × Option (Queue (Batch σ)))
  | .loop id _ _ :: .draining outer :: rest => (some id, outer) :: drainsOf rest
  | .draining outer :: rest => (none, outer) :: drainsOf rest
  | _ :: rest => drainsOf rest
  | [] => []

/-- Every drain that set a queue aside stands on the user code that started it. -/
def Seated : List (Activation σ) → Prop
  | .draining (some _) :: rest => (∃ code below, rest = code :: below ∧ code.IsCode) ∧ Seated rest
  | _ :: rest => Seated rest
  | [] => True

theorem drainsOf_cons {activation : Activation σ} (idle : activation.drives = false)
    (rest : List (Activation σ)) : drainsOf (activation :: rest) = drainsOf rest := by
  cases activation with
  | loop | draining => cases idle
  | program | callback | posting | opening | notifying => rfl

theorem drainsOf_append {begun : List (Activation σ)}
    (idle : ∀ activation ∈ begun, activation.drives = false) (rest : List (Activation σ)) :
    drainsOf (begun ++ rest) = drainsOf rest := by
  induction begun with
  | nil => rfl
  | cons activation begun ih =>
    obtain ⟨here, others⟩ := List.forall_mem_cons.mp idle
    exact (drainsOf_cons here _).trans (ih others)

theorem drainsOf_programs (codes : List (Code σ Unit)) : drainsOf (codes.map .program) = [] := by
  have idle : ∀ activation ∈ codes.map Activation.program, activation.drives = false := by
    simp [Activation.drives]
  simpa [drainsOf] using drainsOf_append idle []

/-- What a step leaves of an activation is in the same drain, if its loop is not over. -/
theorem drainsOf_leaves {activation : Activation σ} {own rest : List (Activation σ)}
    (nested : Nested (activation :: rest)) (left : activation.Leaves own)
    (busy : ∀ outer, activation ≠ .draining outer) :
    drainsOf (own ++ rest) = drainsOf (activation :: rest) ∨
      ∃ id focus stack outer below, activation = .loop id focus stack ∧ own = [] ∧
        rest = .draining outer :: below := by
  cases left with
  | gone =>
    cases activation with
    | loop id focus stack =>
      obtain ⟨outer, below, rfl, _⟩ := nested.of_loop
      exact .inr ⟨id, focus, stack, outer, below, rfl, rfl, rfl⟩
    | draining outer => exact absurd rfl (busy outer)
    | program | callback | posting | opening | notifying => exact .inl rfl
  | loop =>
    obtain ⟨outer, below, rfl, _⟩ := nested.of_loop
    exact .inl rfl
  | program | callback | opening | notifying => exact .inl rfl

theorem Seated.tail {activation : Activation σ} {rest : List (Activation σ)}
    (h : Seated (activation :: rest)) : Seated rest := by
  cases activation with
  | draining outer =>
    cases outer with
    | none => exact h
    | some queue => exact h.2
  | program | callback | posting | opening | loop | notifying => exact h

theorem seated_append {begun rest : List (Activation σ)}
    (brief : ∀ activation ∈ begun, ∀ outer, activation ≠ .draining outer) (h : Seated rest) :
    Seated (begun ++ rest) := by
  induction begun with
  | nil => exact h
  | cons activation begun ih =>
    obtain ⟨here, others⟩ := List.forall_mem_cons.mp brief
    have seated := ih others
    cases activation with
    | draining outer => exact absurd rfl (here outer)
    | program | callback | posting | opening | loop | notifying => exact seated

theorem Activation.Leaves.brief {activation : Activation σ} {own : List (Activation σ)}
    (left : activation.Leaves own) : ∀ other ∈ own, ∀ outer, other ≠ .draining outer := by
  cases left <;> simp

theorem ne_draining_of_idle {begun : List (Activation σ)}
    (idle : ∀ activation ∈ begun, activation.drives = false) :
    ∀ activation ∈ begun, ∀ outer, activation ≠ .draining outer := by
  rintro _ mem outer rfl
  cases idle _ mem

/-- The task that comes to a thread in its next step. -/
def Thread.arrival? (thread : Thread σ) (heap : Heap σ) : Option (Task σ) :=
  thread.next?.bind fun activation => activation.arrival? heap thread.pending.isSome

namespace World

/-! ### What happens to drains -/

/-- What is known of a drain. -/
structure Drain (σ : Type) where
  /-- The moment at which it began. -/
  since : Nat
  /-- The queue that it set aside. -/
  outer : Option (Queue (Batch σ))
  /-- The fiber whose batch it is running. -/
  current : Option FiberId
  /-- The batches that were queued on it, in the order of their arrival. -/
  arrived : List (Batch σ)
  /-- The batches that it took from its queue and began to run, in this order. -/
  started : List (Batch σ)

/-- Whether a drain began inside another one. -/
def Drain.isNested (drain : Drain σ) : Bool := drain.outer.isSome

variable {run : Nat → World σ} {n i : Nat} {thread : Thread σ}

/-- User code starts a root fiber, whose first batch is the given one. -/
def RootAt (run : Nat → World σ) (n : Nat) (batch : Batch σ) : Prop :=
  ∃ i thread activation, StepsAt run n i thread ∧ thread.next? = some activation ∧
    activation.root? (run n).heap = some batch

/-- An executor refuses what a thread hands to it. -/
def RefusesAt (run : Nat → World σ) (n i : Nat) : Prop :=
  ∃ thread activation rest id payload, StepsAt run n i thread ∧ thread.panicking = none ∧
    thread.control = activation :: rest ∧
    Machine.refused? (run n).heap { thread with control := rest } activation = some (id, payload)

/-- The loop of a fiber on a thread comes to the end of its batch, or a panic that got past the
guards takes it along. -/
def OverAt (run : Nat → World σ) (n i : Nat) (id : FiberId) : Prop :=
  ∃ thread focus stack rest, StepsAt run n i thread ∧
    thread.control = .loop id focus stack :: rest ∧
    (thread.panicking = none ∧ Machine.Over id stack (run (n + 1)).heap focus ∨ thread.Escaping)

/-- All that happened to the drains under way on the thread in one place, innermost first. -/
inductive Drains (run : Nat → World σ) (i : Nat) : Nat → List (Drain σ) → Prop where
  /-- No drain is under way. -/
  | none {n : Nat} {thread : Thread σ} (known : (run n).threads[i]? = some thread)
      (idle : drainsOf thread.control = []) : Drains run i n []
  /-- Nothing happens on the thread. -/
  | rests {n : Nat} {thread : Thread σ} {drains : List (Drain σ)} (before : Drains run i n drains)
      (known : (run n).threads[i]? = some thread)
      (same : (run (n + 1)).threads[i]? = some thread) : Drains run i (n + 1) drains
  /-- A drain begins with a batch of its own and an empty queue. Inside another drain, the batch is
  the first one of a root fiber, and user code on this thread asks for it. -/
  | enters {n : Nat} {thread thread' : Thread σ} {drains : List (Drain σ)} {batch : Batch σ}
      {below : List (Activation σ)} (before : Drains run i n drains)
      (known : (run n).threads[i]? = some thread)
      (known' : (run (n + 1)).threads[i]? = some thread')
      (control : thread'.control = .loop batch.fiber (.node batch.current) batch.stack ::
        .draining thread.pending :: below)
      (pending : thread'.pending = some {})
      (root : drains ≠ [] → (∃ code, thread.next? = some code ∧ code.IsCode) ∧
        ∃ m ≤ n, RootAt run m batch) :
      Drains run i (n + 1) (⟨n, thread.pending, some batch.fiber, [], []⟩ :: drains)
  /-- The innermost drain goes on with its batch, or with what the end of its batch has begun. Any
  batch that comes to the thread is not that of a root fiber, and arrives behind all others in the
  queue of this drain. -/
  | advances {n : Nat} {thread : Thread σ} {drain : Drain σ} {drains : List (Drain σ)}
      {current : Option FiberId} (before : Drains run i n (drain :: drains))
      (steps : StepsAt run n i thread)
      (busy : ∀ outer, thread.control.head? ≠ some (.draining outer))
      (shared : ∀ task, thread.arrival? (run n).heap = some task → task.isolated = false)
      (ends : current = drain.current ∨
        current = none ∧ ∃ id, drain.current = some id ∧ OverAt run n i id) :
      Drains run i (n + 1)
        ({ drain with
            current := current
            arrived := drain.arrived ++
              ((thread.arrival? (run n).heap).map Task.batch).toList } :: drains)
  /-- The loop of its batch is over and nothing of what that has begun is left: the innermost drain
  takes the oldest batch from its queue. -/
  | starts {n : Nat} {thread : Thread σ} {drain : Drain σ} {drains : List (Drain σ)}
      {batch : Batch σ} {below : List (Activation σ)} (before : Drains run i n (drain :: drains))
      (steps : StepsAt run n i thread) (free : drain.current = none)
      (calm : thread.panicking = none) (top : thread.control = .draining drain.outer :: below)
      (control : (Machine.step (run n).heap thread).2.control =
        .loop batch.fiber (.node batch.current) batch.stack :: .draining drain.outer :: below) :
      Drains run i (n + 1)
        ({ drain with current := some batch.fiber, started := drain.started ++ [batch] } :: drains)
  /-- All batches have been run: the innermost drain ends, and the queue that it set aside is put
  back. -/
  | ends {n : Nat} {thread : Thread σ} {drain : Drain σ} {drains : List (Drain σ)}
      {below : List (Activation σ)} (before : Drains run i n (drain :: drains))
      (steps : StepsAt run n i thread) (free : drain.current = none)
      (calm : thread.panicking = none) (top : thread.control = .draining drain.outer :: below)
      (all : drain.started = drain.arrived)
      (control : (Machine.step (run n).heap thread).2.control = below)
      (restored : (Machine.step (run n).heap thread).2.pending = drain.outer) :
      Drains run i (n + 1) drains
  /-- A panic ends the innermost drain. An executor has refused a task since the drain began. The
  queue that was set aside is put back. -/
  | unwinds {n : Nat} {thread : Thread σ} {drain : Drain σ} {drains : List (Drain σ)}
      {below : List (Activation σ)} (before : Drains run i n (drain :: drains))
      (steps : StepsAt run n i thread) (free : drain.current = none)
      (panicking : thread.panicking.isSome) (top : thread.control = .draining drain.outer :: below)
      (refused : ∃ m, drain.since < m ∧ m < n ∧ RefusesAt run m i)
      (control : (Machine.step (run n).heap thread).2.control = below)
      (restored : (Machine.step (run n).heap thread).2.pending = drain.outer) :
      Drains run i (n + 1) drains

/-- The queue of a thread is that of its innermost drain, and every drain has set aside that of the
next one. In each queue are the batches that have arrived and not yet been started, oldest first. -/
inductive Queued : Option (Queue (Batch σ)) → List (Drain σ) → Prop where
  | none : Queued none []
  | drain {queue : Queue (Batch σ)} {drain : Drain σ} {drains : List (Drain σ)}
      (fifo : drain.arrived = drain.started ++ queue.toList) (outer : Queued drain.outer drains) :
      Queued (some queue) (drain :: drains)

theorem Queued.depth {queue : Option (Queue (Batch σ))} {drains : List (Drain σ)}
    (h : Queued queue drains) :
    drains.length = drains.countP Drain.isNested + if queue.isSome then 1 else 0 := by
  induction h with
  | none => rfl
  | drain _ _ ih =>
    rw [List.length_cons, ih, List.countP_cons]
    rfl

/-- The drains under way on a thread, after all that happened to them. -/
structure Discipline (run : Nat → World σ) (n i : Nat) (thread : Thread σ)
    (drains : List (Drain σ)) : Prop where
  history : Drains run i n drains
  stack : drainsOf thread.control = drains.map fun drain => (drain.current, drain.outer)
  queues : Queued thread.pending drains
  seated : Seated thread.control
  since : ∀ drain ∈ drains, drain.since < n
  /-- A panic past the guards comes from a refusal inside the innermost drain. -/
  refused : thread.Escaping → ∀ drain ∈ drains.head?,
    ∃ m, drain.since < m ∧ m < n ∧ RefusesAt run m i

theorem discipline_idle (known : (run n).threads[i]? = some thread)
    (idle : drainsOf thread.control = []) (pending : thread.pending = none)
    (seated : Seated thread.control) : Discipline run n i thread [] where
  history := .none known idle
  stack := idle
  queues := pending ▸ .none
  seated := seated
  since := List.forall_mem_nil _
  refused _ _ mem := by cases mem

variable {drains : List (Drain σ)} {activation : Activation σ} {rest : List (Activation σ)}

namespace Discipline

theorem rests (d : Discipline run n i thread drains) (known : (run n).threads[i]? = some thread)
    (same : (run (n + 1)).threads[i]? = some thread) :
    Discipline run (n + 1) i thread drains where
  history := .rests d.history known same
  stack := d.stack
  queues := d.queues
  seated := d.seated
  since drain mem := Nat.lt_succ_of_lt (d.since drain mem)
  refused escaping drain mem := by
    obtain ⟨m, later, earlier, refuses⟩ := d.refused escaping drain mem
    exact ⟨m, later, Nat.lt_succ_of_lt earlier, refuses⟩

/-- A refusal in this step is inside the innermost drain, if the drain was there before. -/
theorem refuses (d : Discipline run n i thread drains) (h : Run run)
    (steps : StepsAt run n i thread)
    (escaping : (Machine.step (run n).heap thread).2.Escaping) {drain : Drain σ}
    (innermost : drain ∈ drains.head?) :
    ∃ m, drain.since < m ∧ m < n + 1 ∧ RefusesAt run m i := by
  have nested := nested_of_reachable (h.reachable n) thread (List.mem_of_getElem? steps.before)
  rcases Machine.escaping_step (steps.steady h) nested escaping with
    already | ⟨calm, activation, rest, id, payload, control, refused⟩
  · obtain ⟨m, later, earlier, refuses⟩ := d.refused already drain innermost
    exact ⟨m, later, Nat.lt_succ_of_lt earlier, refuses⟩
  · exact ⟨n, d.since drain (List.mem_of_mem_head? innermost), Nat.lt_succ_self n,
      thread, activation, rest, id, payload, steps, calm, control, refused⟩

/-- A step that begins no drain and ends none. -/
theorem advances (d : Discipline run n i thread drains) (h : Run run)
    (steps : StepsAt run n i thread) {begun own : List (Activation σ)}
    (control : thread.control = activation :: rest) (busy : ∀ outer, activation ≠ .draining outer)
    (left : activation.Leaves own) (idle : ∀ activation ∈ begun, activation.drives = false)
    (control' : (Machine.step (run n).heap thread).2.control = begun ++ (own ++ rest))
    (shared : ∀ task, thread.arrival? (run n).heap = some task →
      task.isolated = false ∧ thread.pending.isSome)
    (pending' : (Machine.step (run n).heap thread).2.pending =
      match thread.arrival? (run n).heap with
      | some task => thread.pending.map (·.push task.batch)
      | none => thread.pending)
    (ends : ∀ id focus stack, activation = .loop id focus stack → own = [] → OverAt run n i id) :
    ∃ drains', Discipline run (n + 1) i (Machine.step (run n).heap thread).2 drains' := by
  have nested := nested_of_reachable (h.reachable n) thread (List.mem_of_getElem? steps.before)
  have stack' : drainsOf (Machine.step (run n).heap thread).2.control = drainsOf (own ++ rest) := by
    rw [control', drainsOf_append idle]
  have seated' : Seated (Machine.step (run n).heap thread).2.control := by
    have under := d.seated
    rw [control] at under
    rw [control']
    exact seated_append (ne_draining_of_idle idle) (seated_append left.brief under.tail)
  have was := d.stack
  rw [control] at nested was
  have kept := drainsOf_leaves nested left busy
  cases drains with
  | nil =>
    obtain ⟨none, queues⟩ :
        thread.pending = none ∧ Queued thread.pending ([] : List (Drain σ)) := by
      cases pending : thread.pending with
      | none => exact ⟨rfl, .none⟩
      | some queue =>
        have queues := d.queues
        rw [pending] at queues
        cases queues
    refine ⟨[], discipline_idle steps.after ?_ ?_ seated'⟩
    · rcases kept with same | ⟨id, focus, stack, outer, below, rfl, rfl, rfl⟩
      · rw [stack', same, was]
        rfl
      · cases was
    · rw [pending']
      cases arrival : thread.arrival? (run n).heap with
      | none => exact none
      | some task => simp [none] at shared arrival ⊢
  | cons drain drains =>
    -- The innermost drain takes up what arrives; those outside it keep their queues.
    have queues := d.queues
    generalize pending : thread.pending = queue at queues
    cases queues with
    | @drain queue _ _ fifo outer =>
      have busy' : ∀ outer, thread.control.head? ≠ some (.draining outer) := by
        intro outer top
        rw [control] at top
        exact busy outer (Option.some.inj top)
      -- Either the loop of the batch is still there, or it has just come to its end.
      have current : ∃ current, (current = drain.current ∨
          current = none ∧ ∃ id, drain.current = some id ∧ OverAt run n i id) ∧
          drainsOf (own ++ rest) =
            (current, drain.outer) :: drains.map fun drain => (drain.current, drain.outer) := by
        rcases kept with same | ⟨id, focus, stack, outer', below, rfl, rfl, rfl⟩
        · exact ⟨drain.current, .inl rfl, same.trans was⟩
        · obtain ⟨first, others⟩ := List.cons.inj was
          obtain ⟨own, outer⟩ := Prod.mk.inj first
          refine ⟨none, .inr ⟨rfl, id, own.symm, ends id focus stack rfl rfl⟩, ?_⟩
          rw [List.nil_append, drainsOf, outer, others]
      obtain ⟨current, reason, is⟩ := current
      refine ⟨_, .advances d.history steps busy' (fun task arrives => (shared task arrives).1)
        reason,
        stack'.trans is, ?_, seated', ?_, ?_⟩
      · rw [pending', pending]
        cases thread.arrival? (run n).heap with
        | none => exact .drain (by simpa using fifo) outer
        | some task =>
          refine .drain ?_ outer
          simp only [Option.map_some, Option.toList_some, Queue.toList_push, fifo,
            List.append_assoc]
      · intro other mem
        rcases List.mem_cons.mp mem with rfl | mem
        · exact Nat.lt_succ_of_lt (d.since drain List.mem_cons_self)
        · exact Nat.lt_succ_of_lt (d.since other (List.mem_cons_of_mem _ mem))
      · rintro escaping _ ⟨⟩
        have innermost : drain ∈ (drain :: drains).head? := rfl
        have found := d.refuses h steps escaping innermost
        exact found

/-- A batch that is run inside a new drain. -/
theorem enters (d : Discipline run n i thread drains) {thread' : Thread σ} {batch : Batch σ}
    {below : List (Activation σ)} (known : (run n).threads[i]? = some thread)
    (known' : (run (n + 1)).threads[i]? = some thread')
    (control : thread'.control = .loop batch.fiber (.node batch.current) batch.stack ::
      .draining thread.pending :: below)
    (pending : thread'.pending = some {}) (calm : thread'.panicking = none)
    (stack : drainsOf below = drainsOf thread.control) (seated : Seated below)
    (root : drains ≠ [] → (∃ code, thread.next? = some code ∧ code.IsCode) ∧
      (∃ code under, below = code :: under ∧ code.IsCode) ∧ ∃ m ≤ n, RootAt run m batch) :
    ∃ drains', Discipline run (n + 1) i thread' drains' := by
  refine ⟨_, .enters d.history known known' control pending fun inside =>
    ⟨(root inside).1, (root inside).2.2⟩, ?_, ?_, ?_, ?_, ?_⟩
  · rw [control, drainsOf, stack, d.stack]
    rfl
  · exact pending ▸ .drain rfl d.queues
  · rw [control]
    cases outer : thread.pending with
    | none => exact seated
    | some queue =>
      have inside : drains ≠ [] := by
        rintro rfl
        have queues := d.queues
        rw [outer] at queues
        cases queues
      exact ⟨(root inside).2.1, seated⟩
  · intro drain mem
    rcases List.mem_cons.mp mem with rfl | mem
    · exact Nat.lt_succ_self n
    · exact Nat.lt_succ_of_lt (d.since drain mem)
  · exact fun escaping => absurd escaping (Thread.not_escaping_of_calm calm)

/-- What is on top of a thread is the innermost drain itself, the loop of whose batch is over. -/
theorem top (d : Discipline run n i thread drains) {outer : Option (Queue (Batch σ))}
    (control : thread.control = .draining outer :: rest) :
    ∃ drain others queue, drains = drain :: others ∧ drain.current = none ∧ drain.outer = outer ∧
      drainsOf rest = others.map (fun drain => (drain.current, drain.outer)) ∧
      thread.pending = some queue ∧ drain.arrived = drain.started ++ queue.toList ∧
      Queued outer others := by
  have was := d.stack
  have queues := d.queues
  rw [control, drainsOf] at was
  cases drains with
  | nil => cases was
  | cons drain others =>
    obtain ⟨first, under⟩ := List.cons.inj was
    obtain ⟨free, own⟩ := Prod.mk.inj first
    generalize pending : thread.pending = queue at queues
    cases queues with
    | @drain queue _ _ fifo queued =>
      exact ⟨drain, others, queue, rfl, free.symm, own.symm, under, rfl, fifo, own ▸ queued⟩

/-- A drain that is on top of its thread takes the next batch, or ends. -/
theorem drained (d : Discipline run n i thread drains) (steps : StepsAt run n i thread)
    {outer : Option (Queue (Batch σ))} (control : thread.control = .draining outer :: rest)
    (calm : thread.panicking = none) :
    ∃ drains', Discipline run (n + 1) i (Machine.step (run n).heap thread).2 drains' := by
  obtain ⟨drain, others, queue, rfl, free, rfl, under, pending, fifo, queued⟩ := d.top control
  have seated := d.seated
  rw [control] at seated
  have stepped : (Machine.step (run n).heap thread).2 =
      (Machine.advance (run n).heap { thread with control := rest } (.draining drain.outer)).2 := by
    rw [Machine.step_of_next? (run n).heap calm control]
  have older (drain' : Drain σ) (same : drain'.since = drain.since) :
      ∀ other ∈ drain' :: others, other.since < n + 1 := by
    intro other mem
    rcases List.mem_cons.mp mem with rfl | mem
    · exact Nat.lt_succ_of_lt (same ▸ d.since drain List.mem_cons_self)
    · exact Nat.lt_succ_of_lt (d.since other (List.mem_cons_of_mem _ mem))
  cases popped : queue.popFront? with
  | some taken =>
    obtain ⟨batch, left⟩ := taken
    have advanced : (Machine.step (run n).heap thread).2 = { thread with
        control := .loop batch.fiber (.node batch.current) batch.stack ::
          .draining drain.outer :: rest
        pending := some left } := by
      simp only [stepped, Machine.advance, pending, Option.bind_some, popped, Thread.push]
    have calm' : (Machine.step (run n).heap thread).2.panicking = none := by
      rw [advanced]
      exact calm
    have control' : (Machine.step (run n).heap thread).2.control =
        .loop batch.fiber (.node batch.current) batch.stack :: .draining drain.outer :: rest := by
      rw [advanced]
    refine ⟨_, .starts d.history steps free calm control control', ?_, ?_, ?_, older _ rfl, ?_⟩
    · rw [advanced, drainsOf, under]
      rfl
    · rw [advanced]
      refine .drain ?_ queued
      simp [fifo, Queue.toList_of_popFront? popped]
    · rw [advanced]
      exact seated
    · exact fun escaping => absurd escaping (Thread.not_escaping_of_calm calm')
  | none =>
    have advanced : (Machine.step (run n).heap thread).2 =
        { thread with control := rest, pending := drain.outer } := by
      simp only [stepped, Machine.advance, pending, Option.bind_some, popped]
    have calm' : (Machine.step (run n).heap thread).2.panicking = none := by
      rw [advanced]
      exact calm
    -- The queue is empty, so whatever has arrived has been started.
    have all : drain.started = drain.arrived := by
      rw [fifo, (queue.popFront?_eq_none_iff).mp popped, List.append_nil]
    refine ⟨others, .ends d.history steps free calm control all (by rw [advanced])
      (by rw [advanced]), ?_, ?_, ?_, fun other mem => older drain rfl other (.tail _ mem), ?_⟩
    · rw [advanced]
      exact under
    · rw [advanced]
      exact queued
    · rw [advanced]
      exact seated.tail
    · exact fun escaping => absurd escaping (Thread.not_escaping_of_calm calm')

/-- A panic ends a drain that is on top of its thread. -/
theorem unwinds (d : Discipline run n i thread drains) (steps : StepsAt run n i thread)
    {outer : Option (Queue (Batch σ))} (control : thread.control = .draining outer :: rest)
    {payload : Payload} (panicking : thread.panicking = some payload) :
    ∃ drains', Discipline run (n + 1) i (Machine.step (run n).heap thread).2 drains' := by
  obtain ⟨drain, others, queue, rfl, free, rfl, under, pending, fifo, queued⟩ := d.top control
  have seated := d.seated
  rw [control] at seated
  have advanced : (Machine.step (run n).heap thread).2 =
      { thread with control := rest, pending := drain.outer } := by
    rw [Machine.step_of_panicking (run n).heap panicking control]
    rfl
  have escaping : thread.Escaping := ⟨by rw [panicking]; rfl, _, _, control, rfl⟩
  refine ⟨others, .unwinds d.history steps free (by rw [panicking]; rfl) control
    (d.refused escaping drain rfl) (by rw [advanced]) (by rw [advanced]), ?_, ?_, ?_, ?_, ?_⟩
  · rw [advanced]
    exact under
  · rw [advanced]
    exact queued
  · rw [advanced]
    exact seated.tail
  · exact fun other mem => Nat.lt_succ_of_lt (d.since other (List.mem_cons_of_mem _ mem))
  · -- The outer drain is under the user code that started this one, which guards against panics.
    intro past other mem
    cases queued' : drain.outer with
    | none =>
      rw [queued'] at queued
      cases queued
      cases mem
    | some set =>
      rw [queued'] at seated
      obtain ⟨⟨code, below, rfl, code'⟩, _⟩ := seated
      rw [advanced] at past
      obtain ⟨_, top, _, whole, interprets⟩ := past
      cases whole
      cases code'.not_interprets.symm.trans interprets

end Discipline

/-! ### Steps of a thread -/

namespace StepsAt

theorem meets (steps : StepsAt run n i thread) (h : Run run)
    (control : thread.control = activation :: rest) : activation.Meets (run n).heap :=
  (h.owned n).meeting _
    ⟨thread, List.mem_of_getElem? steps.before, control ▸ List.mem_cons_self⟩

theorem arrival? (calm : thread.panicking = none) (control : thread.control = activation :: rest)
    (heap : Heap σ) :
    thread.arrival? heap = activation.arrival? heap thread.pending.isSome := by
  rw [Thread.arrival?, Thread.next?_eq_some_iff.mpr ⟨calm, rest, control⟩]
  rfl

/-- What a step leaves of an activation that is not a drain. -/
theorem left (steps : StepsAt run n i thread) (h : Run run) (calm : thread.panicking = none)
    (control : thread.control = activation :: rest)
    (busy : ∀ outer, activation ≠ .draining outer) :
    ∃ own, Machine.Left (run n).heap { thread with control := rest } activation own
      (Machine.step (run n).heap thread) := by
  rw [Machine.step_of_next? (run n).heap calm control]
  refine Machine.exists_left_advance (fun id focus stack looped => ?_)
    (steps.meets h control) busy
  exact steps.steady h id focus stack
    (Thread.next?_eq_some_iff.mpr ⟨calm, rest, looped ▸ control⟩)

/-- A panic on its way through a thread. -/
theorem discipline_of_panicking (steps : StepsAt run n i thread) (h : Run run)
    (d : Discipline run n i thread drains) {payload : Payload}
    (panicking : thread.panicking = some payload) (control : thread.control = activation :: rest)
    (busy : ∀ outer, activation ≠ .draining outer) :
    ∃ drains', Discipline run (n + 1) i (Machine.step (run n).heap thread).2 drains' := by
  have stepped := Machine.step_of_panicking (run n).heap panicking control
  obtain ⟨own, left, control'⟩ :=
    Machine.takePanic_control (run n).heap { thread with control := rest } payload activation
  have pending' :=
    Machine.pending_takePanic (run n).heap { thread with control := rest } payload busy
  have silent : thread.arrival? (run n).heap = none := by
    rw [Thread.arrival?, Thread.next?, panicking]
    rfl
  have nothing : ∀ activation ∈ ([] : List (Activation σ)), activation.drives = false :=
    List.forall_mem_nil _
  rw [← stepped] at control' pending'
  refine d.advances h steps control busy left nothing control' ?_ (silent ▸ pending') ?_
  · intro task arrives
    cases silent.symm.trans arrives
  · rintro id focus stack rfl rfl
    refine ⟨thread, focus, stack, rest, steps, control, .inr ⟨by rw [panicking]; rfl, ?_⟩⟩
    refine ⟨_, rest, control, ?_⟩
    -- The guard of user code would have kept the loop.
    cases focus with
    | node | value | cause => rfl
    | thunk | raising | building | registering =>
      rw [stepped] at control'
      exact absurd (congrArg List.length control') (Nat.succ_ne_self rest.length)

/-- User code starts a root fiber on its own thread, or takes the first batch of one. -/
theorem discipline_of_isolated (steps : StepsAt run n i thread) (h : Run run)
    (d : Discipline run n i thread drains) (calm : thread.panicking = none)
    (control : thread.control = activation :: rest) {task : Task σ}
    (arrival : thread.arrival? (run n).heap = some task) (isolated : task.isolated = true)
    (root : ∃ m ≤ n, RootAt run m task.batch) :
    ∃ drains', Discipline run (n + 1) i (Machine.step (run n).heap thread).2 drains' := by
  have nested := nested_of_reachable (h.reachable n) thread (List.mem_of_getElem? steps.before)
  rw [control] at nested
  rw [StepsAt.arrival? calm control] at arrival
  obtain ⟨α, keep, code, holds, arrival, going⟩ := Machine.holds_of_isolated arrival isolated
  obtain ⟨left, received, _⟩ :=
    Machine.dispatch_perform (run n).heap { thread with control := rest } keep code
  have stepped : Machine.step (run n).heap thread =
      Machine.perform (run n).heap { thread with control := rest } keep code := by
    rw [Machine.step_of_next? (run n).heap calm control,
      Machine.advance_of_holds holds going]
  rw [← stepped] at received
  rw [show code.arrival? (run n).heap ({ thread with control := rest } : Thread σ).pending.isSome =
    some task from arrival] at received
  cases received with
  | task _ control' pending' calm' =>
    have busy : ∀ outer, activation ≠ .draining outer := by
      rintro outer rfl
      cases holds
    have same : drainsOf (keep left :: rest) = drainsOf (activation :: rest) :=
      (drainsOf_leaves nested (holds.leaves left) busy).resolve_right
        fun ⟨_, _, _, _, _, _, gone, _⟩ => by cases gone
    have seated := d.seated
    rw [control] at seated
    have next := Thread.next?_eq_some_iff.mpr ⟨calm, rest, control⟩
    have begun : (Machine.step (run n).heap thread).2.control =
        .loop task.batch.fiber (.node task.batch.current) task.batch.stack ::
          .draining thread.pending :: keep left :: rest := by
      rw [control', Thread.run, isolated]
      rfl
    have empty : (Machine.step (run n).heap thread).2.pending = some {} := by
      rw [pending', Thread.run, isolated]
    refine d.enters steps.before steps.after begun empty (calm'.trans calm)
      (same.trans (by rw [control])) (seated_append (holds.leaves left).brief seated.tail) ?_
    exact fun _ =>
      ⟨⟨activation, next, ⟨_, _, _, holds⟩⟩, ⟨_, _, rfl, holds.isCode left⟩, root⟩

/-- A step of an activation that is not a drain. The batch that comes with it, if there is one, is
not the first one of a root fiber. -/
theorem discipline_of_shared (steps : StepsAt run n i thread) (h : Run run)
    (d : Discipline run n i thread drains) (calm : thread.panicking = none)
    (control : thread.control = activation :: rest) (busy : ∀ outer, activation ≠ .draining outer)
    (shared : ∀ task, thread.arrival? (run n).heap = some task → task.isolated = false) :
    ∃ drains', Discipline run (n + 1) i (Machine.step (run n).heap thread).2 drains' := by
  have nested := nested_of_reachable (h.reachable n) thread (List.mem_of_getElem? steps.before)
  rw [control] at nested
  obtain ⟨own, leaves, ⟨received, _⟩, ends⟩ := steps.left h calm control busy
  have ends' : ∀ id focus stack, activation = .loop id focus stack → own = [] →
      OverAt run n i id := by
    rintro id focus stack rfl gone
    have reason := ends id focus stack rfl gone
    rw [← steps.heap] at reason
    exact ⟨thread, focus, stack, rest, steps, control, .inl ⟨calm, reason⟩⟩
  have arrives := StepsAt.arrival? calm control (run n).heap
  have nothing : ∀ activation ∈ ([] : List (Activation σ)), activation.drives = false :=
    List.forall_mem_nil _
  generalize arrival : thread.arrival? (run n).heap = task at arrives shared
  rw [← arrives] at received
  cases received with
  | nothing idle control' pending' =>
    refine d.advances h steps control busy leaves idle control' ?_ ?_ ends'
    · intro task some
      cases arrival.symm.trans some
    · rw [arrival]
      exact pending'
  | task task control' pending' calm' =>
    have shared := shared task rfl
    cases pending : thread.pending with
    | some queue =>
      simp only [Thread.run, shared, pending] at control' pending'
      refine d.advances h steps control busy leaves nothing control' ?_ ?_ ends'
      · intro other some
        cases arrival.symm.trans some
        exact ⟨shared, by rw [pending]; rfl⟩
      · rw [arrival, pending', pending]
        rfl
    | none =>
      -- With no queue there is no drain, so the batch enters one of its own.
      have idle : drains = [] ∧ drainsOf thread.control = [] := by
        have queues := d.queues
        rw [pending] at queues
        cases queues
        exact ⟨rfl, d.stack⟩
      have seated := d.seated
      rw [control] at seated
      have stack : drainsOf (own ++ rest) = drainsOf thread.control := by
        rcases drainsOf_leaves nested leaves busy with same | ⟨_, _, _, _, _, rfl, rfl, rfl⟩
        · rw [same, control]
        · -- A loop runs in a drain, and there is none.
          rw [control] at idle
          cases idle.2
      simp only [Thread.run, shared, pending] at control' pending'
      rw [← pending] at control'
      exact d.enters steps.before steps.after control' pending' (calm'.trans calm) stack
        (seated_append leaves.brief seated.tail) fun inside => absurd idle.1 inside

/-- Every step of a thread is one of those that drains can take. -/
theorem discipline (steps : StepsAt run n i thread) (h : Run run)
    (d : Discipline run n i thread drains)
    (roots : ∀ executor, ∀ task ∈ ((run n).heap.waiting executor).toList, task.isolated = true →
      ∃ m < n, RootAt run m task.batch) :
    ∃ drains', Discipline run (n + 1) i (Machine.step (run n).heap thread).2 drains' := by
  cases control : thread.control with
  | nil =>
    have stack := d.stack
    have queues := d.queues
    rw [control] at stack
    obtain rfl : drains = [] := List.map_eq_nil_iff.mp stack.symm
    have control' := Machine.control_step_of_idle (run n).heap control
    refine ⟨[], discipline_idle steps.after (by rw [control']; rfl) ?_ (by rw [control']; trivial)⟩
    have pending' : (Machine.step (run n).heap thread).2.pending = thread.pending := by
      rw [Machine.step, control]
      cases thread.panicking with
      | none => rfl
      | some payload =>
        simp only [Machine.crash]
        split <;> rfl
    rw [pending']
    generalize thread.pending = queue at queues
    cases queues
    rfl
  | cons activation rest =>
    cases panicking : thread.panicking with
    | none =>
      by_cases drain : ∃ outer, activation = .draining outer
      · obtain ⟨outer, rfl⟩ := drain
        exact d.drained steps control panicking
      · have busy : ∀ outer, activation ≠ .draining outer := fun outer own => drain ⟨outer, own⟩
        by_cases shared : ∀ task, thread.arrival? (run n).heap = some task → task.isolated = false
        · exact steps.discipline_of_shared h d panicking control busy shared
        · push Not at shared
          obtain ⟨task, arrival, isolated⟩ := shared
          have isolated : task.isolated = true := by simpa using isolated
          refine steps.discipline_of_isolated h d panicking control arrival isolated ?_
          -- The root fiber is made in this step, or its first batch has been waiting.
          rw [StepsAt.arrival? panicking control] at arrival
          obtain ⟨α, keep, code, holds, arrival, _⟩ := Machine.holds_of_isolated arrival isolated
          rcases Machine.root_of_isolated arrival isolated with root | ⟨executor, waiting⟩
          · have next := Thread.next?_eq_some_iff.mpr ⟨panicking, rest, control⟩
            exact ⟨n, le_rfl, i, thread, activation, steps, next, (holds.root? _).trans root⟩
          · obtain ⟨m, earlier, root⟩ := roots executor task waiting isolated
            exact ⟨m, earlier.le, root⟩
    | some payload =>
      cases activation with
      | draining outer => exact d.unwinds steps control panicking
      | program | callback | posting | opening | loop | notifying =>
        exact steps.discipline_of_panicking h d panicking control (by rintro _ ⟨⟩)

/-- The isolated tasks that a step leaves at executors waited there before, or the step starts a
root fiber. -/
theorem gathers (steps : StepsAt run n i thread) (h : Run run) :
    (run n).heap.Gathers (thread.next?.bind fun activation => activation.root? (run n).heap)
      (run (n + 1)).heap := by
  rw [steps.heap]
  cases control : thread.control with
  | nil =>
    refine Heap.gathers_of_executors _ ?_
    rw [Machine.step, control]
    cases thread.panicking with
    | none => rfl
    | some payload =>
      simp only [Machine.crash]
      split
      · exact Heap.executors_report _ _ _ _
      · rfl
  | cons activation rest =>
    cases panicking : thread.panicking with
    | none =>
      rw [Thread.next?_eq_some_iff.mpr ⟨panicking, rest, control⟩]
      by_cases drain : ∃ outer, activation = .draining outer
      · obtain ⟨outer, rfl⟩ := drain
        refine Heap.gathers_of_executors _ ?_
        rw [Machine.step_of_next? (run n).heap panicking control, Machine.advance]
        split <;> rfl
      · obtain ⟨own, _, dispatch, _⟩ :=
          steps.left h panicking control fun outer own => drain ⟨outer, own⟩
        exact dispatch.waiting
    | some payload =>
      rw [Machine.step_of_panicking (run n).heap panicking control]
      exact Heap.gathers_of_executors _ (Machine.executors_takePanic _ _ _ _)

end StepsAt

/-! ### Runs -/

theorem waiting_of_engaged {heap : Heap σ} {executor : Executor σ}
    (empty : executor.waiting.toList = []) {id : ExecutorId} {task : Task σ}
    (mem : task ∈ (({ heap with executors := heap.executors.push executor } : Heap σ).waiting
      id).toList) : task ∈ (heap.waiting id).toList := by
  simp only [Heap.waiting, Heap.executor?, Array.getElem?_push] at mem ⊢
  split at mem
  next present =>
    split at present
    · cases present
      rw [empty] at mem
      cases mem
    · rw [present]
      exact mem
  next => simp [Queue.toList] at mem

/-- Whatever isolated task waits at an executor is the first batch of a root fiber that user code
has started. -/
theorem Run.roots (h : Run run) (fresh : (run 0).Fresh) (n : Nat) (executor : ExecutorId) :
    ∀ task ∈ ((run n).heap.waiting executor).toList, task.isolated = true →
      ∃ m < n, RootAt run m task.batch := by
  induction n generalizing executor with
  | zero =>
    intro task mem
    simp only [Heap.waiting, Heap.executor?] at mem
    split at mem
    next state present =>
      rw [fresh.executors state (Array.mem_of_getElem? present)] at mem
      cases mem
    next => simp [Queue.toList] at mem
  | succ n ih =>
    intro task mem isolated
    -- The task has been there before, or has arrived in this step.
    have before (old : ∃ executor, task ∈ ((run n).heap.waiting executor).toList) :
        ∃ m < n + 1, RootAt run m task.batch := by
      obtain ⟨executor, old⟩ := old
      obtain ⟨m, earlier, root⟩ := ih executor task old isolated
      exact ⟨m, Nat.lt_succ_of_lt earlier, root⟩
    have kept (same : (run (n + 1)).heap.executors = (run n).heap.executors) :
        ∃ m < n + 1, RootAt run m task.batch :=
      before ⟨executor, by rwa [Heap.waiting_of_executors same] at mem⟩
    have fewer {own : ExecutorId} {rest : Queue (Task σ)}
        (heap : (run (n + 1)).heap = (run n).heap.setWaiting own rest)
        (left : ∀ task ∈ rest.toList, task ∈ ((run n).heap.waiting own).toList) :
        ∃ m < n + 1, RootAt run m task.batch := by
      rw [heap] at mem
      rcases Heap.gathers_setWaiting left none executor task mem isolated with old | new
      · exact before ⟨executor, old⟩
      · cases new
    cases h.step n with
    | act heap threads =>
      obtain ⟨j, known, set⟩ := threads.get
      have steps : StepsAt run n j _ := ⟨known, heap, set⟩
      rcases steps.gathers h executor task mem isolated with old | root
      · exact before ⟨executor, old⟩
      · obtain ⟨activation, next, root⟩ := Option.bind_eq_some_iff.mp root
        exact ⟨n, Nat.lt_succ_self n, j, _, activation, steps, next, root⟩
    | take idle calm waiting left heap threads =>
      refine fewer heap fun other mem => ?_
      rw [left] at mem
      rw [waiting]
      exact List.mem_append.mpr ((List.mem_append.mp mem).imp_right (List.mem_cons_of_mem _))
    | drop left heap threads => exact fewer heap fun other mem => left.subset mem
    | begin idle codes heap threads | spawn fresh codes control heap threads =>
      exact kept (by rw [heap])
    | engage empty heap threads =>
      rw [heap] at mem
      exact before ⟨executor, waiting_of_engaged empty mem⟩
    | outside fibers executors suspensions threads => exact kept executors

theorem seated_programs (codes : List (Code σ Unit)) : Seated (codes.map .program) := by
  induction codes with
  | nil => trivial
  | cons code codes ih => exact ih

/-- No drain is under way on a thread with nothing but programs. -/
theorem discipline_programs {codes : List (Code σ Unit)}
    (known : (run n).threads[i]? = some thread) (pending : thread.pending = none)
    (control : thread.control = codes.map .program) : Discipline run n i thread [] :=
  discipline_idle known (control ▸ drainsOf_programs codes) pending
    (control ▸ seated_programs codes)

/-- An idle thread has no drain, and nothing queued. -/
theorem Discipline.pending_of_idle (d : Discipline run n i thread drains)
    (idle : thread.control = []) : drains = [] ∧ thread.pending = none := by
  have stack := d.stack
  have queues := d.queues
  rw [idle] at stack
  obtain rfl : drains = [] := List.map_eq_nil_iff.mp stack.symm
  generalize thread.pending = queue at queues
  cases queues
  exact ⟨rfl, rfl⟩

/-- In every run of a machine, the drains of every thread keep their discipline: at every moment,
the drains under way on a thread, and the queue of each of them, are what all that happened to them
makes of them (`Drains`, `Queued`). If there are any, one of them is the outermost one, and each of
the others was begun by user code for the first batch of a root fiber. -/
theorem queue_discipline (h : Run run) (fresh : (run 0).Fresh)
    (known : (run n).threads[i]? = some thread) :
    ∃ drains, Discipline run n i thread drains ∧
      drains.length = drains.countP Drain.isNested + if thread.pending.isSome then 1 else 0 := by
  suffices found : ∃ drains, Discipline run n i thread drains by
    obtain ⟨drains, d⟩ := found
    exact ⟨drains, d, d.queues.depth⟩
  induction n generalizing thread with
  | zero =>
    obtain ⟨pending, control⟩ := fresh.threads thread (List.mem_of_getElem? known)
    have none : thread.control = ([] : List (Code σ Unit)).map .program := control
    exact ⟨[], discipline_programs known pending none⟩
  | succ n ih =>
    -- If another thread moves, or none, then this one stays as it is.
    have rests (same : (run (n + 1)).threads[i]? = (run n).threads[i]?) :
        ∃ drains, Discipline run (n + 1) i thread drains := by
      have before := same.symm.trans known
      obtain ⟨drains, d⟩ := ih before
      exact ⟨drains, d.rests before known⟩
    have elsewhere {j : Nat} {other : Thread σ} (ne : j ≠ i)
        (set : (run (n + 1)).threads = (run n).threads.set j other) :
        ∃ drains, Discipline run (n + 1) i thread drains :=
      rests (by rw [set, List.getElem?_set_ne ne])
    have here {old new : Thread σ} (was : (run n).threads[i]? = some old)
        (set : (run (n + 1)).threads = (run n).threads.set i new) : thread = new := by
      obtain ⟨small, _⟩ := List.getElem?_eq_some_iff.mp was
      rw [set, List.getElem?_set_self small] at known
      exact (Option.some.inj known).symm
    cases h.step n with
    | act heap threads =>
      obtain ⟨j, was, set⟩ := threads.get
      by_cases own : j = i
      · subst own
        obtain rfl := here was set
        obtain ⟨drains, d⟩ := ih was
        have steps : StepsAt run n j _ := ⟨was, heap, set⟩
        exact steps.discipline h d (h.roots fresh n)
      · exact elsewhere own set
    | @take before _ _ _ task _ idle calm waiting left heap threads =>
      obtain ⟨j, was, set⟩ := threads.get
      by_cases own : j = i
      · subst own
        obtain rfl := here was set
        obtain ⟨drains, d⟩ := ih was
        -- An idle thread has no drain, so the task begins the outermost one.
        obtain ⟨rfl, pending⟩ := d.pending_of_idle idle
        have begun : (before.run task).control =
            .loop task.batch.fiber (.node task.batch.current) task.batch.stack ::
              .draining before.pending :: [] := by
          unfold Thread.run
          rw [pending, idle]
          cases task.isolated <;> rfl
        have empty : (before.run task).pending = some {} := by
          unfold Thread.run
          rw [pending]
          cases task.isolated <;> rfl
        obtain ⟨_, _, _, calm'⟩ := (before.grows_run task).of_willing
        exact d.enters was known begun empty (calm'.trans calm) (by rw [idle]) trivial
          fun inside => absurd rfl inside
      · exact elsewhere own set
    | begin idle codes heap threads =>
      obtain ⟨j, was, set⟩ := threads.get
      by_cases own : j = i
      · subst own
        obtain rfl := here was set
        obtain ⟨drains, d⟩ := ih was
        exact ⟨[], discipline_programs known (d.pending_of_idle idle).2 rfl⟩
      · exact elsewhere own set
    | @spawn made fresh codes control heap threads =>
      have there := known
      rw [threads, List.getElem?_append] at there
      split at there
      next small => exact rests (by rw [threads, List.getElem?_append_left small])
      next =>
        obtain rfl := List.mem_singleton.mp (List.mem_of_getElem? there)
        exact ⟨[], discipline_programs known fresh control⟩
    | drop left heap threads | engage empty heap threads
    | outside fibers executors suspensions threads => exact rests (by rw [threads])

/-- An effect that forks a fiber and then starts a root fiber in its own code. -/
def branching : Effect Nat .unit :=
  (Effect.unit : Effect Nat .unit).fork.flatMap fun _ =>
    .done (Effect.succeed (launched Effect.unit))

/-- While the root fiber runs inside the loop of the effect, the batch of the forked fiber is in the
queue that its drain has set aside, and it is there again when that drain has ended. -/
theorem queue_discipline_branching :
    let run := staged 0 (launched branching)
    (run 0).Fresh ∧ (run 14).threads[0]? = some (run 14).main ∧
      ∃ drains, Discipline run 14 0 (run 14).main drains ∧ drains.length = 2 ∧
        drains.countP Drain.isNested = 1 ∧
        drains.map (fun drain => drain.outer.map fun queue => queue.toList.map Batch.fiber) =
          [some [⟨2⟩], none] ∧
        (run 16).main.pending.map (fun queue => queue.toList.map Batch.fiber) = some [⟨2⟩] := by
  have known : (staged 0 (launched branching) 14).threads[0]? =
      some (staged 0 (launched branching) 14).main := rfl
  obtain ⟨drains, d, depth⟩ :=
    queue_discipline (run_staged 0 (launched branching)) (fresh_bare 0) known
  have two : drains.length = 2 := by
    rw [← List.length_map, ← d.stack]
    rfl
  have running : (staged 0 (launched branching) 14).main.pending.isSome = true := rfl
  have nested : drains.countP Drain.isNested = 1 := by
    rw [two, running] at depth
    simpa using depth.symm
  have outers := congrArg
    (List.map fun seen => seen.2.map fun queue => queue.toList.map Batch.fiber)
    d.stack
  rw [List.map_map] at outers
  exact ⟨fresh_bare 0, known, drains, d, two, nested, outers.symm, rfl⟩

end World

end Fibers
