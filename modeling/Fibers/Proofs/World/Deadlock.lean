import Fibers.Proofs.Machine.Likeness
import Fibers.Proofs.World.Crew
import Fibers.Runner

/-!
# Calls on an inline executor

On an executor that runs every task at once, a root fiber is run by the very call that starts it,
together with all it forks. If the effect keeps to itself, that call cannot return early.

## Main results

`World.no_deadlock`: until a call has returned, its thread has something to do; once it has, the
root fiber and all its descendants have ended, and a blocked caller goes on with the exit. What is
under way below the call, and what the older fibers are doing, makes no difference.

## Proof strategy

The call begins a drain with a crew of one. `Mans.stays` and `Mans.steps` carry the crew through the
run, so the drain can end only with nothing queued, and then the whole crew has ended. Two calls go
through the same stages because the crew does the same in heaps that look alike to it.
-/

namespace Fibers

variable {σ : Type} {A : Ty} {α : Type}

/-! ### Calls -/

namespace Runner

/-- The rest of a call that blocks until a mailbox opens. -/
def blocked (A : Ty) (mailbox : MailboxId) : Code σ (Exit A.Carrier) :=
  .wait mailbox none fun
    | .opened (some exit) => .done (exit.recover A)
    | _ => .done missingExit

/-- User code starts an effect on a new root fiber, and may wait for the exit in a new mailbox; the
last code is what is left of it when the fiber has been started. -/
inductive Calls (runner : Runner) (effect : Effect σ A) (heap : Heap σ) :
    Option (FiberId × Ty × MailboxId) → Code σ α → Code σ α → Prop where
  | fork (f : Fiber A → Code σ α) :
      Calls runner effect heap none ((runner.fork effect).bind f) (f ⟨heap.nextFiber⟩)
  | runSync (f : Exit A.Carrier → Code σ α) :
      Calls runner effect heap (some (heap.nextFiber, A, heap.nextMailbox))
        ((runner.runSync effect).bind f) ((blocked A heap.nextMailbox).bind f)

/-- A blocked caller goes on with the exit that is in the open mailbox. -/
theorem perform_blocked {heap : Heap σ} {mailbox : MailboxId} {exit : Exit A.Carrier}
    (shown : heap.isOpen mailbox = true) (slot : heap.slot mailbox = some exit.erase)
    (thread : Thread σ) (keep : Code σ α → Activation σ) (f : Exit A.Carrier → Code σ α) :
    Machine.perform heap thread keep ((blocked A mailbox).bind f) =
      (heap, thread.push (keep (f exit))) := by
  simp only [blocked, Action.bind, Machine.perform, shown, if_true, slot, Exit.recover_erase]

end Runner

variable {heap heap' : Heap σ} {executor : ExecutorId} {root : Node σ} {runner : Runner}
  {effect : Effect σ A} {answer : Option (FiberId × Ty × MailboxId)} {inline : ExecutorId → Prop}
  {keep : Code σ α → Activation σ} {request rest : Code σ α}

theorem Runner.Calls.isOver (calls : runner.Calls effect heap answer request rest) :
    request.isOver = false := by
  cases calls <;> rfl

/-- The heap after a root fiber has been made and started. -/
def Heap.begun (heap : Heap σ) (executor : ExecutorId) (root : Node σ)
    (observers : List (Observer σ)) (thread : ThreadId) : Heap σ :=
  let made := Machine.newRoot heap executor root observers
  (made.updateFiber heap.nextFiber fun fiber => { fiber with seed := none }).report thread .debug
    fun _ => .fiberStarted heap.nextFiber (made.executorName executor)

section Begun

variable (heap : Heap σ) (executor : ExecutorId) (root : Node σ) (observers : List (Observer σ))
  (thread : ThreadId)

theorem Heap.fibers_begun : (heap.begun executor root observers thread).fibers =
    (heap.launch ⟨.running observers, {}, [], executor, some root⟩).fibers :=
  (tables_report _ _ _ _).1

theorem Heap.suspensions_begun :
    (heap.begun executor root observers thread).suspensions = heap.suspensions :=
  (tables_report _ _ _ _).2

theorem Heap.executors_begun :
    (heap.begun executor root observers thread).executors = heap.executors :=
  executors_report _ _ _ _

theorem Heap.mailboxes_begun :
    (heap.begun executor root observers thread).mailboxes = heap.mailboxes :=
  mailboxes_report _ _ _ _

end Begun

theorem Heap.Resembles.begun {observers : List (Observer σ)} (like : heap.Resembles [] heap')
    (unowned : ∀ callback state, heap.suspension? callback ≠ some ⟨heap.nextFiber, state⟩)
    (unowned' : ∀ callback state, heap'.suspension? callback ≠ some ⟨heap.nextFiber, state⟩)
    (thread : ThreadId) : (heap.begun executor root observers thread).Resembles [heap.nextFiber]
      (heap'.begun executor root observers thread) := by
  rw [Heap.begun, Heap.begun, like.nextFiber_eq]
  refine (Heap.Resembles.updateFiber ?_ _ _).report _ _ _ _
  exact like.addFiber _ (fun id mem => .inl (List.mem_singleton.mp mem)) unowned unowned'

/-- A root fiber on an inline executor begins at once, on a queue of its own. -/
theorem Machine.start_newRoot (heap : Heap σ) (target : heap.isInline executor = true)
    (observers : List (Observer σ)) (caller : Thread σ) (calm : caller.panicking = none) :
    start (newRoot heap executor root observers) caller heap.nextFiber true =
      (heap.begun executor root observers caller.id,
        drainer caller {} ([.loop heap.nextFiber (.node root) []] ++
          .draining caller.pending :: caller.control)) := by
  have present : (newRoot heap executor root observers).fiber? heap.nextFiber =
      some ⟨.running observers, {}, [], executor, some root⟩ := heap.fiber?_addFiber _
  have target' : (heap.begun executor root observers caller.id).isInline executor = true :=
    (Heap.isInline_of_executors (heap.executors_begun executor root observers caller.id) _).trans
      target
  refine (start_eq present rfl true).trans ?_
  show execute (heap.begun executor root observers caller.id) caller executor _ = _
  unfold Heap.isInline at target'
  unfold execute
  split at target'
  next name waiting found =>
    rw [found]
    simp only [Thread.run, drainer, calm]
    rfl
  next => cases target'

/-- A root fiber that has just begun is a crew of its own. -/
theorem Crewed.begins {observers : List (Observer σ)}
    (fibers : heap'.fibers = (heap.launch
      ⟨.running observers, {}, [], executor, some root⟩).fibers)
    (suspensions : heap'.suspensions = heap.suspensions)
    (inlines : ∀ executor, inline executor → heap'.isInline executor = true)
    (own : inline executor) (confined : root.Confined inline ∅)
    (unparked : ∀ callback stack, heap.suspension? callback ≠ some ⟨heap.nextFiber, .parked stack⟩)
    (observes : ∀ observer ∈ observers, ∃ type mailbox, observer = .answer type mailbox ∧
      answer = some (heap.nextFiber, type, mailbox))
    (answered : ∀ id type mailbox, answer = some (id, type, mailbox) → id = heap.nextFiber ∧
      .answer type mailbox ∈ observers ∧ Fits heap' mailbox) :
    Crewed inline [heap.nextFiber] answer heap' [] [.loop heap.nextFiber (.node root) []] := by
  have new : heap'.fiber? heap.nextFiber =
      some ⟨.running observers, {}, [], executor, none⟩ := by
    rw [Heap.fiber?, fibers, heap.fibers_launch]
    exact if_pos rfl
  have progress : heap'.progress heap.nextFiber = .running observers := by
    rw [Heap.progress, new]
    rfl
  refine ⟨List.nodup_singleton _, inlines, fun id mem => ?_, fun callback id state there mem => ?_,
    (by rintro _ ⟨⟩), ?_, fun id mem _ => ?_, fun id type mailbox asks => ?_⟩
  · -- The root knows nobody yet, and the caller is all that waits for it.
    obtain rfl := List.mem_singleton.mp mem
    refine ⟨?_, ⟨?_, ?_⟩, fun exit ended => ?_, fun observer mem => ?_⟩
    · rw [Heap.Knows, fibers]
      exact (heap.knows_launch _ _).mpr (.inr rfl)
    · rw [Heap.executorOf, new]
      exact own
    · rw [Heap.environments, new]
      exact fun _ mem => by cases mem
    · rw [← Heap.exit?_progress, progress] at ended
      cases ended
    · rw [Heap.observers, progress] at mem
      obtain ⟨type, mailbox, rfl, asks⟩ := observes observer mem
      exact asks
  · obtain rfl := List.mem_singleton.mp mem
    rw [Heap.suspension?, suspensions] at there
    refine standing_of_unparked ?_ (by rintro _ _ ⟨⟩)
    rintro stack rfl
    exact unparked callback stack there
  · exact .loop List.mem_cons_self (.node (confined.mono (Set.empty_subset _)))
      fun _ mem => by cases mem
  · obtain rfl := List.mem_singleton.mp mem
    exact .looping List.mem_cons_self
  · obtain ⟨rfl, waits, fits⟩ := answered id type mailbox asks
    refine ⟨List.mem_cons_self, fits, .awaited ?_⟩
    rwa [Heap.observers, progress]

namespace Runner

/-- The heap after a call has begun. -/
def begun (runner : Runner) (effect : Effect σ A) (heap : Heap σ) (thread : ThreadId) :
    Option (FiberId × Ty × MailboxId) → Heap σ
  | none => heap.begun runner.executor effect.node [] thread
  | some (_, type, mailbox) =>
    heap.addMailbox.begun runner.executor effect.node [.answer type mailbox] thread

namespace Calls

/-- A call begins a drain on top of what is left of the caller. -/
theorem perform_eq (calls : runner.Calls effect heap answer request rest)
    (target : heap.isInline runner.executor = true) (keep : Code σ α → Activation σ)
    (caller : Thread σ) (calm : caller.panicking = none) :
    Machine.perform heap caller keep request = (runner.begun effect heap caller.id answer,
      drainer caller {} ([.loop heap.nextFiber (.node effect.node) []] ++
        .draining caller.pending :: keep rest :: caller.control)) := by
  cases calls with
  | fork => exact Machine.start_newRoot heap target [] (caller.push (keep _)) calm
  | runSync =>
    exact Machine.start_newRoot heap.addMailbox target [.answer A heap.nextMailbox]
      (caller.push (keep _)) calm

/-- A call begins a crew of one. -/
theorem crewed (calls : runner.Calls effect heap answer request rest)
    (inlines : ∀ executor, inline executor → heap.isInline executor = true)
    (own : inline runner.executor) (confined : effect.Confined inline ∅)
    (unparked : ∀ callback stack, heap.suspension? callback ≠ some ⟨heap.nextFiber, .parked stack⟩)
    (thread : ThreadId) :
    Crewed inline [heap.nextFiber] answer (runner.begun effect heap thread answer) []
      [.loop heap.nextFiber (.node effect.node) []] := by
  cases calls with
  | fork =>
    exact .begins (heap.fibers_begun _ _ _ _) (heap.suspensions_begun _ _ _ _)
      (fun executor own => (Heap.isInline_of_executors (heap.executors_begun _ _ _ _) _).trans
        (inlines executor own)) own confined unparked nofun nofun
  | runSync =>
    refine .begins (heap.addMailbox.fibers_begun _ _ _ _)
      (heap.addMailbox.suspensions_begun _ _ _ _)
      (fun executor own => (Heap.isInline_of_executors (heap.addMailbox.executors_begun _ _ _ _)
        _).trans (inlines executor own)) own confined unparked (fun observer mem => ?_)
      fun id type mailbox asks => ?_
    · obtain rfl := List.mem_singleton.mp mem
      exact ⟨A, heap.nextMailbox, rfl, rfl⟩
    · cases asks
      refine ⟨rfl, List.mem_cons_self, {}, ?_, Nat.le_refl 1⟩
      rw [begun, Heap.mailboxes_begun]
      simp [Heap.addMailbox, Heap.nextMailbox]

theorem resembles (calls : runner.Calls effect heap answer request rest)
    (like : heap.Resembles [] heap')
    (unowned : ∀ callback state, heap.suspension? callback ≠ some ⟨heap.nextFiber, state⟩)
    (unowned' : ∀ callback state, heap'.suspension? callback ≠ some ⟨heap.nextFiber, state⟩)
    (thread : ThreadId) : (runner.begun effect heap thread answer).Resembles [heap.nextFiber]
      (runner.begun effect heap' thread answer) := by
  cases calls with
  | fork => exact like.begun unowned unowned' thread
  | runSync =>
    have like' : heap.addMailbox.Resembles [] heap'.addMailbox :=
      like.unseen ⟨rfl, rfl, rfl, rfl⟩ ⟨rfl, rfl, rfl, rfl⟩
    exact like'.begun unowned unowned' thread

end Calls

end Runner

/-! ### Crews that have nothing left to do, and crews that have -/

variable {crew : List FiberId} {id : FiberId} {type : Ty} {mailbox : MailboxId} {n i : Nat}
  {segment under base : List (Activation σ)} {queue : Queue (Batch σ)} {thread : Thread σ}
  {activation : Activation σ}

/-- Once a crew has nothing to do, the caller finds the exit that it waits for. -/
theorem Crewed.answers (h : Crewed inline crew (some (id, type, mailbox)) heap [] []) :
    ∃ exit, heap.poll id = some exit ∧ heap.isOpen mailbox = true ∧
      heap.slot mailbox = some (exit.recover type).erase := by
  obtain ⟨mem, _, due⟩ := h.answered id type mailbox rfl
  cases due with
  | awaited waits =>
    obtain ⟨exit, ended⟩ := h.ended id mem
    rw [heap.observers_eq_nil ended] at waits
    cases waits
  | told mem | posted mem | filled mem => cases mem
  | given shown ended slot => exact ⟨_, ended, shown, slot⟩

theorem Action.Confined.awaited? {holds : Set FiberId → α → Prop} {owed : Option CallbackId}
    {known : Set FiberId} {code : Code σ α} (h : code.Confined holds owed known) :
    code.awaited? = none := by cases h <;> rfl

/-- Nothing that a crew has under way waits for a mailbox. -/
theorem Segment.awaited? (h : Segment inline crew answer heap (activation :: under)) :
    Machine.awaited? activation = none := by
  cases h with
  | loop _ confined =>
    cases confined with
    | thunk code | raising code | building code => exact code.awaited?
    | node | value | cause => rfl
  | registering _ stage =>
    cases stage with
    | owing _ code | supplied _ code => exact code.awaited?
    | asking | asked => rfl
  | notifying | posting | opening => rfl

/-- A thread that runs a crew can go on. -/
theorem Crewed.isRunnable (h : Crewed inline crew answer heap queue.toList segment)
    (outer : Option (Queue (Batch σ))) : Machine.isRunnable heap
      (drainer thread queue (segment ++ .draining outer :: base)) = true := by
  cases segment with
  | nil => rfl
  | cons activation under =>
    simp only [Machine.isRunnable, drainer, List.cons_append, h.work.awaited?]

namespace World

open Effect

variable {run run' : Nat → World σ} {n' i' m last : Nat} {thread' : Thread σ} {back : Activation σ}
  {outer : Option (Queue (Batch σ))}

/-- The next step of a thread is a call in the user code on top of it. -/
structure Call (run : Nat → World σ) (runner : Runner) (effect : Effect σ A) (i n : Nat)
    (thread : Thread σ) (answer : Option (FiberId × Ty × MailboxId))
    (keep : Code σ α → Activation σ) (rest : Code σ α) (base : List (Activation σ)) : Prop where
  steps : StepsAt run n i thread
  calm : thread.panicking = none
  makes : ∃ activation request, thread.control = activation :: base ∧
    activation.Holds keep request ∧ runner.Calls effect (run n).heap answer request rest

/-- The call has returned: the drain that it began is over. -/
def Returned (run : Nat → World σ) (i : Nat) (thread : Thread σ) (back : Activation σ)
    (base : List (Activation σ)) (m : Nat) : Prop :=
  (run m).threads[i]? = some { thread with control := back :: base }

/-- The thread is in the middle of the call, and it can go on. -/
def Underway (run : Nat → World σ) (i : Nat) (thread : Thread σ) (back : Activation σ)
    (base : List (Activation σ)) (m : Nat) : Prop :=
  ∃ queue segment, (run m).threads[i]? =
      some (drainer thread queue (segment ++ .draining thread.pending :: back :: base)) ∧
    Machine.isRunnable (run m).heap
      (drainer thread queue (segment ++ .draining thread.pending :: back :: base)) = true

theorem Mans.underway {root : FiberId}
    (mans : Mans run inline answer root i thread thread.pending (back :: base) m crew queue
      segment) :
    Underway run i thread back base m :=
  ⟨queue, segment, mans.known, mans.crewed.isRunnable _⟩

theorem Mans.not_returned {root : FiberId}
    (mans : Mans run inline answer root i thread thread.pending (back :: base) m crew queue
      segment) :
    ¬Returned run i thread back base m := by
  intro returned
  have same := congrArg (fun thread => thread.control.length)
    (Option.some.inj (mans.known.symm.trans returned))
  simp [drainer] at same
  omega

/-! ### Beginnings -/

/-- A call begins a crew of one. -/
theorem Call.begins (call : Call run runner effect i n thread answer keep rest base)
    (h : Run run)
    (inlines : ∀ m executor, inline executor → (run m).heap.isInline executor = true)
    (own : inline runner.executor) (confined : effect.Confined inline ∅) :
    (run (n + 1)).heap = runner.begun effect (run n).heap thread.id answer ∧
      Mans run inline answer (run n).heap.nextFiber i thread thread.pending (keep rest :: base)
        (n + 1) [(run n).heap.nextFiber] {}
        [.loop (run n).heap.nextFiber (.node effect.node) []] := by
  obtain ⟨activation, request, control, holds, calls⟩ := call.makes
  have stepped := (Machine.step_of_next? (run n).heap call.calm control).trans
    ((Machine.advance_of_holds holds calls.isOver _ _).trans
      (calls.perform_eq (inlines n _ own) keep { thread with control := base } call.calm))
  have heap : (run (n + 1)).heap = runner.begun effect (run n).heap thread.id answer := by
    rw [call.steps.heap, stepped]
  refine ⟨heap, ?_, ?_, fun id => ?_⟩
  · rw [call.steps.after, stepped]
    rfl
  · rw [heap]
    exact calls.crewed (inlines n) own confined (fun _ _ => h.unowned n _ _) thread.id
  · rw [List.mem_singleton]
    refine ⟨fun own => own ▸ .root _, fun descends => descends.eq_root h fun m before knows => ?_⟩
    exact (run n).heap.not_knows_nextFiber (h.knows_stays (Nat.le_of_lt_succ before) knows)

/-! ### Returns -/

/-- What is the case once a call has returned. -/
structure Concluded (run : Nat → World σ) (answer : Option (FiberId × Ty × MailboxId))
    (root : FiberId) (m : Nat) : Prop where
  ended : ∀ id, Descends run root id m → ∃ exit, (run m).heap.poll id = some exit
  answered : ∀ id type mailbox, answer = some (id, type, mailbox) →
    ∃ exit, (run m).heap.poll id = some exit ∧ (run m).heap.isOpen mailbox = true ∧
      (run m).heap.slot mailbox = some (exit.recover type).erase

/-- Where a call is that began some time ago. -/
def Stands (run : Nat → World σ) (inline : ExecutorId → Prop)
    (answer : Option (FiberId × Ty × MailboxId)) (root : FiberId) (i n : Nat) (thread : Thread σ)
    (back : Activation σ) (base : List (Activation σ)) (m : Nat) : Prop :=
  ((∃ crew queue segment,
      Mans run inline answer root i thread thread.pending (back :: base) m crew queue segment) ∧
    ∀ k, n < k → k ≤ m → ¬Returned run i thread back base k) ∨
  ∃ k, n < k ∧ k ≤ m ∧ Returned run i thread back base k ∧ Concluded run answer root k

/-- An idle thread forks nothing. -/
theorem Mans.members_of_idle {root : FiberId}
    (mans : Mans run inline answer root i thread outer under m crew queue []) (h : Run run) :
    id ∈ crew ↔ Descends run root id (m + 1) := by
  rw [descends_succ_iff, mans.members]
  refine (or_iff_left ?_).symm
  rintro ⟨parent, effect, descends, forks⟩
  obtain ⟨stack, top, _⟩ := mans.forks h ((mans.members parent).mpr descends) forks
  cases top

/-- The drain of a crew ends with the call. -/
theorem Mans.concludes {root : FiberId} (calm : thread.panicking = none)
    (mans : Mans run inline answer root i thread thread.pending (back :: base) m crew queue [])
    (h : Run run)
    (steps : StepsAt run m i (drainer thread queue (.draining thread.pending :: back :: base)))
    (empty : queue.toList = []) :
    Returned run i thread back base (m + 1) ∧ Concluded run answer root (m + 1) ∧
      (run (m + 1)).heap = (run m).heap := by
  obtain ⟨known, heap, ended⟩ := mans.returns steps rfl empty
  have crewed := mans.crewed
  rw [empty] at crewed
  refine ⟨?_, ⟨fun id descends => ?_, fun id type mailbox own => ?_⟩, heap⟩
  · rw [Returned, known, calm.symm]
  · rw [heap]
    exact ended id ((mans.members id).mp ((mans.members_of_idle h).mpr descends))
  · subst own
    rw [heap]
    exact crewed.answers

/-- One moment of a call. -/
theorem Stands.next {root : FiberId} (calm : thread.panicking = none)
    (stands : Stands run inline answer root i n thread back base m) (h : Run run) (later : n < m)
    (inlines : ∀ m executor, inline executor → (run m).heap.isInline executor = true)
    (shut : Sealed run answer i m)
    (apart : (∀ k, n < k → k ≤ m → ¬Returned run i thread back base k) →
      Apart run i m (Descends run root · m)) :
    Stands run inline answer root i n thread back base (m + 1) := by
  rcases stands with ⟨⟨crew, queue, segment, mans⟩, unreturned⟩ | ⟨k, low, high, returned⟩
  · have going {crew queue segment} (mans : Mans run inline answer root i thread thread.pending
        (back :: base) (m + 1) crew queue segment) :
        Stands run inline answer root i n thread back base (m + 1) := by
      refine .inl ⟨⟨crew, queue, segment, mans⟩, fun k low high => ?_⟩
      rcases Nat.le_succ_iff.mp high with earlier | rfl
      · exact unreturned k low earlier
      · exact mans.not_returned
    by_cases still : ∀ thread, ¬StepsAt run m i thread
    · exact going (mans.stays h (inlines (m + 1)) (apart unreturned) shut still)
    · obtain ⟨caller, steps⟩ := not_forall_not.mp still
      cases mans.known.symm.trans steps.before
      by_cases busy : segment ≠ [] ∨ queue.toList ≠ []
      · obtain ⟨_, _, _, mans⟩ := mans.steps h steps busy
        exact going mans
      · obtain ⟨idle, empty⟩ := not_or.mp busy
        obtain rfl := not_not.mp idle
        obtain ⟨returned, concluded, _⟩ := mans.concludes calm h steps (not_not.mp empty)
        exact .inr ⟨m + 1, Nat.lt_succ_of_lt later, le_rfl, returned, concluded⟩
  · exact .inr ⟨k, low, high.trans (Nat.le_succ m), returned⟩

theorem Call.stands (call : Call run runner effect i n thread answer keep rest base)
    (h : Run run)
    (inlines : ∀ m executor, inline executor → (run m).heap.isInline executor = true)
    (own : inline runner.executor) (confined : effect.Confined inline ∅) (later : n < last)
    (shut : ∀ m, n < m → m < last → Sealed run answer i m)
    (apart : ∀ m, n < m → m < last →
      (∀ k, n < k → k ≤ m → ¬Returned run i thread (keep rest) base k) →
      Apart run i m (Descends run (run n).heap.nextFiber · m)) :
    Stands run inline answer (run n).heap.nextFiber i n thread (keep rest) base last := by
  induction last, (later : n + 1 ≤ last) using Nat.le_induction with
  | base =>
    have mans := (call.begins h inlines own confined).2
    refine .inl ⟨⟨_, _, _, mans⟩, fun k low high => ?_⟩
    obtain rfl : k = n + 1 := Nat.le_antisymm high low
    exact mans.not_returned
  | succ m low ih =>
    have stands := ih (fun k low high => shut k low (high.trans (Nat.lt_succ_self m)))
      fun k low high => apart k low (high.trans (Nat.lt_succ_self m))
    exact stands.next call.calm h low inlines (shut m low (Nat.lt_succ_self m))
      (apart m low (Nat.lt_succ_self m))

/-- Fibers that have all ended fork no more. -/
theorem Concluded.later {root : FiberId} (concluded : Concluded run answer root m) (h : Run run)
    {k : Nat} (later : m ≤ k) (descends : Descends run root id k) :
    ∃ exit, (run k).heap.poll id = some exit := by
  have still : Descends run root id m := by
    induction k, later using Nat.le_induction generalizing id with
    | base => exact descends
    | succ k later ih =>
      rcases descends_succ_iff.mp descends with descends | ⟨parent, effect, descends, forks⟩
      · exact ih descends
      · obtain ⟨exit, ended⟩ := concluded.ended parent (ih descends)
        have running := ((h.owned k).there (forks.places h)).2
        cases running.symm.trans (h.poll_stays later ended)
  obtain ⟨exit, ended⟩ := concluded.ended id still
  exact ⟨exit, h.poll_stays later ended⟩

/-- A caller that blocks on the exit of a root finds it at once. -/
def Answered (run : Nat → World σ) (A : Ty) (i : Nat) (root : FiberId) (thread : Thread σ)
    (keep : Code σ α → Activation σ) (mailbox : MailboxId) (f : Exit A.Carrier → Code σ α)
    (base : List (Activation σ)) (k : Nat) : Prop :=
  ∃ exit, (run k).heap.poll root = some exit ∧
    Machine.isRunnable (run k).heap
      { thread with control := keep ((Runner.blocked A mailbox).bind f) :: base } = true ∧
    ∀ caller, StepsAt run k i caller → (run (k + 1)).threads[i]? =
      some { thread with control := keep (f (exit.recover A)) :: base }

theorem awaited?_of_holds {activation : Activation σ} {code : Code σ α}
    (holds : activation.Holds keep code) (rest : Code σ α) :
    Machine.awaited? (keep rest) = rest.awaited? ∧ (keep rest).Holds keep rest := by
  cases holds <;> exact ⟨rfl, by constructor⟩

theorem Concluded.answers {root : FiberId} {f : Exit A.Carrier → Code σ α}
    (concluded : Concluded run (some (root, A, mailbox)) root m) (h : Run run)
    (calm : thread.panicking = none)
    (holds : (keep ((Runner.blocked A mailbox).bind f)).Holds keep
      ((Runner.blocked A mailbox).bind f))
    (returned : Returned run i thread (keep ((Runner.blocked A mailbox).bind f)) base m) {k : Nat}
    (later : m ≤ k)
    (still : ∀ j, m ≤ j → j < k → Sealed run (some (root, A, mailbox)) i j ∧
      ∀ caller, ¬StepsAt run j i caller) :
    Answered run A i root thread keep mailbox f base k := by
  obtain ⟨exit, ended, shown, slot⟩ := concluded.answered root A mailbox rfl
  -- Nothing happens to the caller and its mailbox.
  have same : (run k).heap.mailboxes[mailbox.index]? = (run m).heap.mailboxes[mailbox.index]? ∧
      Returned run i thread (keep ((Runner.blocked A mailbox).bind f)) base k := by
    induction k, later using Nat.le_induction with
    | base => exact ⟨rfl, returned⟩
    | succ k later ih =>
      obtain ⟨same, returned⟩ := ih fun j low high => still j low (high.trans (Nat.lt_succ_self k))
      obtain ⟨shut, rests⟩ := still k later (Nat.lt_succ_self k)
      exact ⟨(shut root A mailbox rfl rests).trans same,
        (h.stays_or_steps returned nofun).resolve_right (rests _)⟩
  obtain ⟨same, returned⟩ := same
  have shown' : (run k).heap.isOpen mailbox = true := by
    rwa [Heap.isOpen, same]
  have slot' : (run k).heap.slot mailbox = some (exit.recover A).erase := by
    rwa [Heap.slot, same]
  refine ⟨exit, h.poll_stays later ended, ?_, fun caller steps => ?_⟩
  · simp only [Machine.isRunnable, (awaited?_of_holds holds _).1, calm]
    simp only [Runner.blocked, Action.bind, Action.awaited?, Heap.canProceed, shown', Bool.true_or]
  · cases (show (run k).threads[i]? = _ from returned).symm.trans steps.before
    have going : ((Runner.blocked A mailbox).bind f).isOver = false := rfl
    rw [steps.after, Machine.step, calm]
    simp only [Machine.advance_of_holds holds going, Runner.perform_blocked shown' slot']
    rfl

/-! ### The same call elsewhere -/

/-- Two threads that are about to go on with the same call. -/
structure Twins (thread thread' : Thread σ) : Prop where
  id : thread'.id = thread.id
  name : thread'.name = thread.name
  role : thread'.role = thread.role

theorem Twins.drainer_eq (twins : Twins thread thread') (queue : Queue (Batch σ))
    (control : List (Activation σ)) :
    drainer thread' queue control = drainer thread queue control := by
  obtain ⟨id, name, role, pending, control', panicking⟩ := thread
  obtain ⟨_, _, _⟩ := twins
  simp_all [drainer]

/-- The caller is the only thread that steps, for some time after the call has begun. -/
def Alone (run : Nat → World σ) (i n k : Nat) : Prop :=
  ∀ m, 0 < m → m ≤ k → ∃ caller, StepsAt run (n + m) i caller

theorem crewAfter_congr {heap heap' : Heap σ} (like : heap.Resembles crew heap')
    {next : Option (Activation σ)}
    (loops : ∀ id focus stack, next = some (.loop id focus stack) → id ∈ crew) :
    crewAfter crew heap' next = crewAfter crew heap next := by
  unfold crewAfter
  split
  next => rw [like.shouldInterrupt_eq (loops _ _ _ rfl), like.nextFiber_eq]
  next => rfl

/-- Two calls in heaps that differ in older things only bring the same fibers to the same exits, and
return at the same time. -/
theorem Call.lockstep (call : Call run runner effect i n thread answer keep rest base)
    (h : Run run)
    (inlines : ∀ m executor, inline executor → (run m).heap.isInline executor = true)
    (own : inline runner.executor) (confined : effect.Confined inline ∅) {β : Type}
    {keep' : Code σ β → Activation σ} {rest' : Code σ β} {base' : List (Activation σ)}
    (call' : Call run' runner effect i' n' thread' answer keep' rest' base') (h' : Run run')
    (inlines' : ∀ m executor, inline executor → (run' m).heap.isInline executor = true)
    (like : (run n).heap.Resembles [] (run' n').heap) (twins : Twins thread thread') {k : Nat}
    (alone : Alone run i n k) (alone' : Alone run' i' n' k) :
    (∃ crew queue segment,
      Mans run inline answer (run n).heap.nextFiber i thread thread.pending (keep rest :: base)
        (n + k + 1) crew queue segment ∧
      Mans run' inline answer (run n).heap.nextFiber i' thread' thread'.pending
        (keep' rest' :: base') (n' + k + 1) crew queue segment ∧
      (run (n + k + 1)).heap.Resembles crew (run' (n' + k + 1)).heap) ∨
    ∃ j ≤ k, Returned run i thread (keep rest) base (n + j + 1) ∧
      Returned run' i' thread' (keep' rest') base' (n' + j + 1) ∧
      ∀ id, Descends run (run n).heap.nextFiber id (n + j + 1) →
        (run' (n' + j + 1)).heap.poll id = (run (n + j + 1)).heap.poll id := by
  induction k with
  | zero =>
    obtain ⟨heap, mans⟩ := call.begins h inlines own confined
    obtain ⟨heap', mans'⟩ := call'.begins h' inlines' own confined
    obtain ⟨_, _, _, _, calls⟩ := call.makes
    rw [like.nextFiber_eq] at mans'
    refine .inl ⟨_, _, _, mans, mans', ?_⟩
    rw [Nat.add_zero, Nat.add_zero, heap, heap', twins.id]
    exact calls.resembles like (h.unowned n) (like.nextFiber_eq ▸ h'.unowned n') thread.id
  | succ k ih =>
    rcases ih (fun m low high => alone m low (high.trans (Nat.le_succ k)))
        (fun m low high => alone' m low (high.trans (Nat.le_succ k))) with
      ⟨crew, queue, segment, mans, mans', like⟩ | ⟨j, le, returned⟩
    · -- Both crews have the same work, so either both go on or both calls return.
      obtain ⟨caller, steps⟩ := alone (k + 1) (Nat.succ_pos k) le_rfl
      obtain ⟨caller', steps'⟩ := alone' (k + 1) (Nat.succ_pos k) le_rfl
      cases mans.known.symm.trans steps.before
      cases mans'.known.symm.trans steps'.before
      by_cases busy : segment ≠ [] ∨ queue.toList ≠ []
      · obtain ⟨queue₁, segment₁, stepped, next⟩ := mans.steps h steps busy
        obtain ⟨queue₂, segment₂, stepped', next'⟩ := mans'.steps h' steps' busy
        obtain ⟨resembles, same⟩ := mans.crewed.likewise like
          (inlines' _) (h.unowned _) (like.nextFiber_eq ▸ h'.unowned _) thread none []
        rw [← twins.drainer_eq, stepped', twins.drainer_eq, twins.drainer_eq, stepped]
          at resembles same
        -- They find the same work again, as far as the drains go.
        obtain ⟨queues, controls⟩ : queue₂ = queue₁ ∧
            segment₂ ++ [.draining none] = segment₁ ++ [.draining none] := by
          simpa [drainer] using same
        obtain rfl := queues
        obtain rfl := List.append_cancel_right controls
        rw [crewAfter_congr like mans.crewed.work.loops] at next'
        exact .inl ⟨_, _, _, next, next', resembles⟩
      -- Nothing is left to do, so both calls return, and their members have the same exits.
      · obtain ⟨idle, empty⟩ := not_or.mp busy
        obtain rfl := not_not.mp idle
        have empty := not_not.mp empty
        obtain ⟨returned, _, heap⟩ := mans.concludes call.calm h steps empty
        obtain ⟨returned', _, heap'⟩ := mans'.concludes call'.calm h' steps' empty
        refine .inr ⟨k + 1, le_rfl, returned, returned', fun id descends => ?_⟩
        have mem := (mans.members_of_idle h).mpr descends
        have poll := like.poll_eq mem
        rw [← heap, ← heap'] at poll
        exact poll
    · exact .inr ⟨j, le.trans (Nat.le_succ k), returned⟩

/-! ### No deadlock -/

/-- A call for a root fiber, on an executor that runs every task at once, of an effect that keeps to
itself, anywhere in user code. As long as it has not returned, its thread can go on. Once it has,
the root fiber and all that has been forked in its run are done and stay so, and a caller that waits
for the exit need not wait. And wherever else the call is made in the same circumstances, it returns
at the same time, with the same exits. -/
theorem no_deadlock (h : Run run)
    (inlines : ∀ m executor, inline executor → (run m).heap.isInline executor = true)
    (own : inline runner.executor) (confined : effect.Confined inline ∅)
    (call : Call run runner effect i n thread answer keep rest base) :
    (∀ last, n < last → (∀ m, n < m → m < last → Sealed run answer i m) →
      (∀ m, n < m → m < last → (∀ k, n < k → k ≤ m → ¬Returned run i thread (keep rest) base k) →
        Apart run i m (Descends run (run n).heap.nextFiber · m)) →
      Underway run i thread (keep rest) base last ∨
      ∃ m, n < m ∧ m ≤ last ∧ Returned run i thread (keep rest) base m ∧
        (∀ k id, m ≤ k → Descends run (run n).heap.nextFiber id k →
          ∃ exit, (run k).heap.poll id = some exit) ∧
        ∀ mailbox f k, answer = some ((run n).heap.nextFiber, A, mailbox) →
          rest = (Runner.blocked A mailbox).bind f → m ≤ k → k ≤ last →
          (∀ j, m ≤ j → j < k → ∀ caller, ¬StepsAt run j i caller) →
          Answered run A i (run n).heap.nextFiber thread keep mailbox f base k) ∧
    ∀ (run' : Nat → World σ) (n' i' : Nat) (thread' : Thread σ) (β : Type)
      (keep' : Code σ β → Activation σ) (rest' : Code σ β) (base' : List (Activation σ)),
      Call run' runner effect i' n' thread' answer keep' rest' base' → Run run' →
      (∀ m executor, inline executor → (run' m).heap.isInline executor = true) →
      (run n).heap.Resembles [] (run' n').heap → Twins thread thread' →
      ∀ k, Alone run i n k → Alone run' i' n' k →
        (∀ j < k, ¬Returned run i thread (keep rest) base (n + j + 1)) →
        (Returned run' i' thread' (keep' rest') base' (n' + k + 1) ↔
          Returned run i thread (keep rest) base (n + k + 1)) ∧
        ∀ id, Descends run (run n).heap.nextFiber id (n + k + 1) →
          (run' (n' + k + 1)).heap.poll id = (run (n + k + 1)).heap.poll id := by
  constructor
  · intro last later shut apart
    rcases call.stands h inlines own confined later shut apart with
      ⟨⟨_, _, _, mans⟩, _⟩ | ⟨m, low, high, returned, concluded⟩
    · exact .inl mans.underway
    · refine .inr ⟨m, low, high, returned, fun k id later => concluded.later h later, ?_⟩
      rintro mailbox f k rfl rfl later' high' still
      obtain ⟨_, _, _, holds, _⟩ := call.makes
      exact concluded.answers h call.calm (awaited?_of_holds holds _).2 returned later'
        fun j low' before =>
          ⟨shut j (low.trans_le low') (before.trans_le high'), still j low' before⟩
  · intro run' n' i' thread' β keep' rest' base' call' h' inlines' like twins k alone alone' first
    rcases call.lockstep h inlines own confined call' h' inlines' like twins alone alone' with
      ⟨crew, queue, segment, mans, mans', like⟩ | ⟨j, le, returned, returned', same⟩
    · exact ⟨⟨fun returned => absurd returned mans'.not_returned,
        fun returned => absurd returned mans.not_returned⟩,
        fun id descends => like.poll_eq ((mans.members id).mpr descends)⟩
    · -- A call that had returned sooner would not be the first to.
      obtain rfl : j = k := by
        rcases le.lt_or_eq with before | same
        · exact absurd returned (first j before)
        · exact same
      exact ⟨iff_of_true returned' returned, same⟩

/-! ### A call in the middle of another fiber -/

/-- On a trial nobody else interferes with a crew. -/
theorem apart_trial (state : σ) (program : Code σ Unit) (n : Nat) (members : FiberId → Prop) :
    Apart (trial state program) 0 n members where
  observers := by
    rintro j id observer other _ ⟨_, _, _, steps, _⟩
    exact other (eq_zero_of_stepsAt_trial steps).symm
  callbacks := by
    rintro j id callback state value other _ _ ⟨_, _, steps, _⟩
    exact other (eq_zero_of_stepsAt_trial steps).symm

theorem inline_trial {state : σ} {program : Code σ Unit}
    (inline : ∀ n ≤ last, (trial state program n).heap.isInline ⟨0⟩ = true)
    (idle : (trial state program last).main.control = [])
    (calm : (trial state program last).main.panicking = none) (n : Nat) :
    (trial state program n).heap.isInline ⟨0⟩ = true := by
  rcases le_total n last with early | later
  · exact inline n early
  · rw [trial_of_idle idle calm later]
    exact inline last le_rfl

/-- An effect that forks a fiber and joins it. -/
def forkedFive : Effect Nat .int :=
  (succeedNow 5 : Effect Nat .int).fork.flatMap fun id => .done (join (⟨id⟩ : Fiber .int))

theorem confined_forkedFive : forkedFive.Confined (· = (⟨0⟩ : ExecutorId)) ∅ :=
  (Effect.Confined.fork (confined_succeedNow fun _ mem => by cases mem)).flatMap fun _ _ _ handle =>
    .done (confined_join (handle _ List.mem_cons_self))

/-- A fiber that runs it on a fiber of its own, and waits for the exit. -/
def nested : Effect Nat (.exit .int) := succeed ((⟨⟨0⟩⟩ : Runner).runSync forkedFive)

/-- A program that does so, after another fiber has ended. -/
def unnested : Code Nat Unit :=
  ((⟨⟨0⟩⟩ : Runner).fork (unit : Effect Nat .unit)).bind fun _ =>
    ((⟨⟨0⟩⟩ : Runner).runSync forkedFive).bind fun _ => .done ()

/-- The call in the middle of a fiber returns with everybody done, and it returns where the call of
the program does. -/
theorem no_deadlock_nested :
    (∀ id, Descends (trial 0 (launched nested)) ⟨2⟩ id 31 →
      ∃ exit, (trial 0 (launched nested) 31).heap.poll id = some exit) ∧
    (trial 0 unnested 34).heap.poll ⟨2⟩ = (trial 0 (launched nested) 31).heap.poll ⟨2⟩ := by
  have inlines : ∀ m executor, executor = (⟨0⟩ : ExecutorId) →
      (trial 0 (launched nested) m).heap.isInline executor = true := by
    have early : ∀ m ≤ 37, (trial 0 (launched nested) m).heap.isInline ⟨0⟩ = true := by decide
    rintro m _ rfl
    exact inline_trial early rfl rfl m
  have inlines' : ∀ m executor, executor = (⟨0⟩ : ExecutorId) →
      (trial 0 unnested m).heap.isInline executor = true := by
    have early : ∀ m ≤ 36, (trial 0 unnested m).heap.isInline ⟨0⟩ = true := by decide
    rintro m _ rfl
    exact inline_trial early rfl rfl m
  have call : Call (trial 0 (launched nested)) ⟨⟨0⟩⟩ forkedFive 0 2
      (trial 0 (launched nested) 2).main (some (⟨2⟩, .int, ⟨0⟩))
      (fun code => .loop ⟨1⟩ (.thunk code) []) ((Runner.blocked .int ⟨0⟩).bind fun exit =>
        .done ⟨.exit .int, exit⟩) [.draining none, .program (.done ())] :=
    ⟨stepsAt_trial _ _ _, rfl, _, _, rfl, .thunk _ _ _, .runSync _⟩
  have call' : Call (trial 0 unnested) ⟨⟨0⟩⟩ forkedFive 0 5 (trial 0 unnested 5).main
      (some (⟨2⟩, .int, ⟨0⟩)) .program ((Runner.blocked .int ⟨0⟩).bind fun _ => .done ()) [] :=
    ⟨stepsAt_trial _ _ _, rfl, _, _, rfl, .program _, .runSync _⟩
  obtain ⟨returns, elsewhere⟩ := no_deadlock (run_trial 0 (launched nested)) inlines rfl
    confined_forkedFive call
  -- The call is over after 31 steps, and not before.
  have busy : ∀ j < 28, (trial 0 (launched nested) (2 + j + 1)).main.control.length ≠ 3 := by decide
  have rests {m : Nat} (returned : Returned (trial 0 (launched nested)) 0
      (trial 0 (launched nested) 2).main (.loop ⟨1⟩ (.thunk ((Runner.blocked .int ⟨0⟩).bind
        fun exit => .done ⟨.exit .int, exit⟩)) []) [.draining none, .program (.done ())] m) :
      (trial 0 (launched nested) m).main.control.length = 3 :=
    congrArg (·.control.length) (Option.some.inj returned)
  constructor
  · have interrupted (m : Nat) : Sealed (trial 0 (launched nested))
        (some (⟨2⟩, .int, ⟨0⟩)) 0 m := fun _ _ _ _ still =>
      absurd (stepsAt_trial 0 (launched nested) m) (still _)
    rcases returns 31 (by decide) (fun m _ _ => interrupted m)
        fun m _ _ _ => apart_trial 0 (launched nested) m _ with
      ⟨queue, segment, there, _⟩ | ⟨m, _, high, _, ended, _⟩
    · have same : 3 = (segment ++ Activation.draining _ :: _ :: _).length :=
        congrArg (·.control.length) (Option.some.inj there)
      simp at same
    · exact fun id descends => ended 31 id high descends
  · obtain ⟨_, same⟩ := elsewhere (trial 0 unnested) 5 0 _ Unit .program _ [] call'
      (run_trial 0 unnested) inlines' ⟨rfl, rfl, rfl, rfl, nofun, nofun⟩ ⟨rfl, rfl, rfl⟩ 28
      (fun m _ _ => ⟨_, stepsAt_trial _ _ _⟩) (fun m _ _ => ⟨_, stepsAt_trial _ _ _⟩)
      fun j early returned => busy j early (rests returned)
    exact same ⟨2⟩ (.root _)

end World

end Fibers
