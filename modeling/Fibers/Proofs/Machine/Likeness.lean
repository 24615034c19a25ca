import Fibers.Proofs.Machine.Duty

/-!
# What a crew can see

A crew sees its own fibers and suspensions, the world of user code and the clock, and how many
fibers and suspensions there are, since that numbers the next ones. It sees nothing else of the
machine.

## Main results

`Crewed.likewise`: in two heaps that look alike to it, a crew does the same, and they look alike
afterwards.

## Proof strategy

Each operation of the machine keeps the likeness, if it reads what the crew can see. The invariant
`Crewed` says that it does.
-/

namespace Fibers

variable {σ : Type}

/-- Two heaps look alike to a crew: what else is in them may differ, but not how much of it. -/
structure Heap.Resembles (crew : List FiberId) (heap heap' : Heap σ) : Prop where
  world : heap'.world = heap.world
  now : heap'.now = heap.now
  fiberCount : heap'.fibers.size = heap.fibers.size
  callbackCount : heap'.suspensions.size = heap.suspensions.size
  fibers : ∀ id ∈ crew, heap'.fiber? id = heap.fiber? id
  suspensions : ∀ callback id state, id ∈ crew →
    (heap'.suspension? callback = some ⟨id, state⟩ ↔
      heap.suspension? callback = some ⟨id, state⟩)

/-- A change of the heap that no crew can see. -/
structure Heap.Unseen (heap heap' : Heap σ) : Prop where
  world : heap'.world = heap.world
  now : heap'.now = heap.now
  fibers : heap'.fibers = heap.fibers
  suspensions : heap'.suspensions = heap.suspensions

variable {crew : List FiberId} {heap heap' first first' : Heap σ} {id : FiberId}
  {callback : CallbackId} {state : Rendezvous σ}

theorem Heap.unseen_report (heap : Heap σ) (thread : ThreadId) (severity : Severity)
    (event : Unit → Event) : heap.Unseen (heap.report thread severity event) := by
  unfold report
  split <;> exact ⟨rfl, rfl, rfl, rfl⟩

theorem Heap.unseen_noteDefect (heap : Heap σ) (thread : ThreadId) (payload : Payload) :
    heap.Unseen (heap.noteDefect thread payload) := by
  obtain ⟨world, now, fibers, suspensions⟩ :=
    unseen_report { heap with defects := heap.defects + 1 } thread .warn
      fun _ => .defectCaught payload.text
  exact ⟨world, now, fibers, suspensions⟩

namespace Heap.Resembles

theorem unseen (like : heap.Resembles crew heap') (before : heap.Unseen first)
    (after : heap'.Unseen first') : first.Resembles crew first' where
  world := by rw [before.world, after.world, like.world]
  now := by rw [before.now, after.now, like.now]
  fiberCount := by rw [before.fibers, after.fibers, like.fiberCount]
  callbackCount := by rw [before.suspensions, after.suspensions, like.callbackCount]
  fibers id mem := by
    rw [fiber?, fiber?, before.fibers, after.fibers]
    exact like.fibers id mem
  suspensions callback id state mem := by
    rw [suspension?, suspension?, before.suspensions, after.suspensions]
    exact like.suspensions callback id state mem

theorem report (like : heap.Resembles crew heap') (thread : ThreadId) (severity : Severity)
    (event event' : Unit → Event) :
    (heap.report thread severity event).Resembles crew (heap'.report thread severity event') :=
  like.unseen (heap.unseen_report _ _ _) (heap'.unseen_report _ _ _)

theorem noteDefect (like : heap.Resembles crew heap') (thread : ThreadId) (payload : Payload) :
    (heap.noteDefect thread payload).Resembles crew (heap'.noteDefect thread payload) :=
  like.unseen (heap.unseen_noteDefect _ _) (heap'.unseen_noteDefect _ _)

theorem updateFiber (like : heap.Resembles crew heap') (target : FiberId)
    (f : FiberState σ → FiberState σ) :
    (heap.updateFiber target f).Resembles crew (heap'.updateFiber target f) where
  world := like.world
  now := like.now
  fiberCount := by simp [Heap.updateFiber, like.fiberCount]
  callbackCount := like.callbackCount
  fibers id mem := by
    have same := like.fibers id mem
    unfold fiber? at same
    rw [fiber?, fiber?, fibers_updateFiber, fibers_updateFiber, same]
  suspensions := like.suspensions

theorem setRendezvous (like : heap.Resembles crew heap') (target : CallbackId)
    (state : Rendezvous σ) :
    (heap.setRendezvous target state).Resembles crew (heap'.setRendezvous target state) where
  world := like.world
  now := like.now
  fiberCount := like.fiberCount
  callbackCount := by simp [Heap.setRendezvous, like.callbackCount]
  fibers := like.fibers
  suspensions callback id state' mem := by
    rw [suspension?, suspension?, Heap.setRendezvous, Heap.setRendezvous, Array.getElem?_modify,
      Array.getElem?_modify]
    split
    next =>
      -- The suspension had some state before, which both heaps agree about.
      rw [Option.map_eq_some_iff, Option.map_eq_some_iff]
      constructor
      all_goals
        rintro ⟨⟨owner, old⟩, there, same⟩
        obtain ⟨rfl, rfl⟩ : owner = id ∧ state = state' := by simpa using same
      · exact ⟨_, (like.suspensions callback owner old mem).mp there, rfl⟩
      · exact ⟨_, (like.suspensions callback owner old mem).mpr there, rfl⟩
    next => exact like.suspensions callback id state' mem

theorem addSuspension (like : heap.Resembles crew heap') (owner : FiberId) :
    (heap.addSuspension owner).Resembles crew (heap'.addSuspension owner) where
  world := like.world
  now := like.now
  fiberCount := like.fiberCount
  callbackCount := by simp [Heap.addSuspension, like.callbackCount]
  fibers := like.fibers
  suspensions callback id state mem := by
    rw [suspension?_addSuspension, suspension?_addSuspension, nextCallback, nextCallback,
      like.callbackCount]
    split
    · rfl
    · exact like.suspensions callback id state mem

theorem addFiber (like : heap.Resembles crew heap') (fiber : FiberState σ) {crew' : List FiberId}
    (recruits : ∀ id ∈ crew', id = heap.nextFiber ∨ id ∈ crew)
    (unowned : ∀ callback state, heap.suspension? callback ≠ some ⟨heap.nextFiber, state⟩)
    (unowned' : ∀ callback state, heap'.suspension? callback ≠ some ⟨heap.nextFiber, state⟩) :
    (heap.addFiber fiber).Resembles crew' (heap'.addFiber fiber) where
  world := like.world
  now := like.now
  fiberCount := by simp [Heap.addFiber, like.fiberCount]
  callbackCount := like.callbackCount
  fibers id mem := by
    unfold fiber?
    rw [Heap.addFiber, Heap.addFiber, Array.getElem?_push, Array.getElem?_push, like.fiberCount]
    split
    next => rfl
    next other =>
      refine like.fibers id ((recruits id mem).resolve_left ?_)
      rintro rfl
      exact other rfl
  suspensions callback id state mem := by
    rcases recruits id mem with rfl | mem
    · exact ⟨fun there => absurd there (unowned' callback state),
        fun there => absurd there (unowned callback state)⟩
    · exact like.suspensions callback id state mem

theorem modifyWorld (like : heap.Resembles crew heap') (change : σ → σ) :
    Heap.Resembles crew { heap with world := change heap.world }
      { heap' with world := change heap'.world } :=
  ⟨congrArg change like.world, like.now, like.fiberCount, like.callbackCount, like.fibers,
    like.suspensions⟩

theorem nextFiber_eq (like : heap.Resembles crew heap') : heap'.nextFiber = heap.nextFiber := by
  rw [nextFiber, nextFiber, like.fiberCount]

theorem nextCallback_eq (like : heap.Resembles crew heap') :
    heap'.nextCallback = heap.nextCallback := by
  rw [nextCallback, nextCallback, like.callbackCount]

section Reads

variable (like : heap.Resembles crew heap') (mem : id ∈ crew)
include like mem

theorem poll_eq : heap'.poll id = heap.poll id := by rw [poll, poll, like.fibers id mem]

theorem shouldInterrupt_eq : heap'.shouldInterrupt id = heap.shouldInterrupt id := by
  rw [shouldInterrupt, shouldInterrupt, like.fibers id mem]

theorem status_eq : heap'.status id = heap.status id := by rw [status, status, like.fibers id mem]

theorem environments_eq : heap'.environments id = heap.environments id := by
  rw [environments, environments, like.fibers id mem]

theorem executorOf_eq : heap'.executorOf id = heap.executorOf id := by
  rw [executorOf, executorOf, like.fibers id mem]

end Reads

end Heap.Resembles

/-! ### Operations -/

/-- Two outcomes of a step look alike to a crew. -/
def Likewise (crew : List FiberId) (after after' : Heap σ × Thread σ) : Prop :=
  after.1.Resembles crew after'.1 ∧ after'.2 = after.2

theorem Heap.Resembles.likewise (like : heap.Resembles crew heap') (thread : Thread σ) :
    Likewise crew (heap, thread) (heap', thread) := ⟨like, rfl⟩

namespace Machine

variable {inline : ExecutorId → Prop} {thread : Thread σ} {batches : Queue (Batch σ)}
  {base : List (Activation σ)}

theorem likewise_completeFiber (like : heap.Resembles crew heap') (mem : id ∈ crew)
    (thread : Thread σ) (exit : Exit Erased) :
    Likewise crew (completeFiber heap thread id exit) (completeFiber heap' thread id exit) := by
  unfold completeFiber
  rw [like.fibers id mem]
  split
  · exact ((like.updateFiber id _).report _ _ _ _).likewise _
  · exact ⟨like, rfl⟩

theorem likewise_observe (like : heap.Resembles crew heap') (mem : id ∈ crew) (thread : Thread σ)
    (observer : Observer σ) :
    Likewise crew (observe heap thread id observer) (observe heap' thread id observer) := by
  unfold observe
  rw [like.fibers id mem]
  split
  · exact ⟨like.updateFiber id _, rfl⟩
  · exact ⟨like, rfl⟩
  · exact ⟨like, rfl⟩

theorem resembles_requestInterrupt (like : heap.Resembles crew heap') (mem : id ∈ crew)
    (thread : Thread σ) :
    (requestInterrupt heap thread id).Resembles crew (requestInterrupt heap' thread id) := by
  unfold requestInterrupt
  rw [like.fibers id mem]
  split
  · dsimp only
    split
    · exact like.updateFiber id _
    · exact (like.updateFiber id _).report _ _ _ _
  · exact like

theorem likewise_execute {executor : ExecutorId} (like : heap.Resembles crew heap')
    (target : heap.isInline executor = true) (target' : heap'.isInline executor = true)
    (batch : Batch σ) : Likewise crew (execute heap (drainer thread batches base) executor
      ⟨batch, false⟩) (execute heap' (drainer thread batches base) executor ⟨batch, false⟩) := by
  rw [execute_drainer target, execute_drainer target']
  exact ⟨like, rfl⟩

/-- A callback that a member waits for is completed. -/
theorem likewise_completeCallback (like : heap.Resembles crew heap') (mem : id ∈ crew)
    (own : heap.suspension? callback = some ⟨id, state⟩)
    (target : heap.isInline (heap.executorOf id) = true)
    (target' : heap'.isInline (heap.executorOf id) = true) (value : Erased) :
    Likewise crew (completeCallback heap (drainer thread batches base) callback value)
      (completeCallback heap' (drainer thread batches base) callback value) := by
  have own' := (like.suspensions callback id state mem).mpr own
  unfold completeCallback
  rw [own, own']
  cases state with
  | registering => exact ⟨like.setRendezvous _ _, rfl⟩
  | parked stack =>
    have like' := (like.setRendezvous callback .resumed).report thread.id .trace
      (fun _ => .fiberResumed id stack.length) fun _ => .fiberResumed id stack.length
    have executors (heap : Heap σ) : ((heap.setRendezvous callback .resumed).report thread.id .trace
        fun _ => .fiberResumed id stack.length).executors = heap.executors :=
      (heap.setRendezvous callback .resumed).executors_report _ _ _
    have owner : (((heap.setRendezvous callback .resumed).report thread.id .trace
        fun _ => .fiberResumed id stack.length).executorOf id) = heap.executorOf id := by
      rw [executorOf_report]
      rfl
    simp only [resume, drainer]
    rw [like'.executorOf_eq mem, owner]
    refine likewise_execute like' ?_ ?_ _
    · rwa [Heap.isInline_of_executors (executors heap)]
    · rwa [Heap.isInline_of_executors (executors heap')]
  | completed | resumed | abandoned => exact ⟨like, rfl⟩

/-- A member forks a child, which both crews number alike. -/
theorem likewise_fork {effect : Node σ} {stack : List (Frame σ)}
    (like : heap.Resembles crew heap') (mem : id ∈ crew)
    (unowned : ∀ callback state, heap.suspension? callback ≠ some ⟨heap.nextFiber, state⟩)
    (unowned' : ∀ callback state, heap'.suspension? callback ≠ some ⟨heap.nextFiber, state⟩)
    (target : heap.isInline (heap.executorOf id) = true)
    (target' : heap'.isInline (heap.executorOf id) = true) :
    Likewise (recruit id heap.nextFiber crew)
      (fork heap (drainer thread batches base) id effect stack)
      (fork heap' (drainer thread batches base) id effect stack) := by
  have owner := like.executorOf_eq mem
  rw [fork_drainer target, fork_drainer (owner.symm ▸ target'), like.nextFiber_eq, Heap.forked,
    Heap.forked, like.environments_eq mem, owner, like.nextFiber_eq]
  refine Heap.Resembles.likewise (((Heap.Resembles.report ?_ _ _ _ _).updateFiber _ _).report
    _ _ _ _) _
  exact like.addFiber _ (fun other there => (mem_recruit_iff mem).mp there) unowned unowned'

/-- A loop of a member interprets a node. -/
theorem likewise_interpret {current : Node σ} {known : Set FiberId} {stack : List (Frame σ)}
    (like : heap.Resembles crew heap') (mem : id ∈ crew)
    (confined : current.Confined inline known) (other : ∀ effect, current ≠ .fork effect)
    (inlines : ∀ executor, inline executor → heap.isInline executor = true)
    (inlines' : ∀ executor, inline executor → heap'.isInline executor = true) :
    Likewise crew (interpret heap (drainer thread batches base) id stack current)
      (interpret heap' (drainer thread batches base) id stack current) := by
  cases confined with
  | fork => exact absurd rfl (other _)
  | succeed | sync | fail => exact ⟨like, rfl⟩
  | flatMap | fold => exact (like.report _ _ _ _).likewise _
  | async | await =>
    rw [interpret, interpret, like.nextCallback_eq]
    exact ⟨like.addSuspension id, rfl⟩
  | @shift _ executor target =>
    have same (heap : Heap σ) (event : Unit → Event) : ((heap.setExecutor id executor).report
        thread.id .trace event).executors = heap.executors :=
      (heap.setExecutor id executor).executors_report _ _ _
    simp only [interpret]
    rw [show (drainer thread batches base).id = thread.id from rfl,
      execute_drainer ((Heap.isInline_of_executors (same heap _) _).trans (inlines _ target)),
      execute_drainer ((Heap.isInline_of_executors (same heap' _) _).trans (inlines' _ target))]
    exact ((like.updateFiber id _).report _ _ _ _).likewise _
  | withStatus =>
    rw [interpret, interpret, like.status_eq mem]
    exact ⟨like.updateFiber id _, rfl⟩
  | provide | restoreStatus | leaveScope => exact ⟨like.updateFiber id _, rfl⟩
  | access =>
    simp only [interpret, like.environments_eq mem]
    split <;> exact ⟨like, rfl⟩

/-- A confined request, other than to complete a callback. -/
theorem likewise_perform {α : Type} {holds : Set FiberId → α → Prop} {owed : Option CallbackId}
    {known : Set FiberId} {code : Code σ α} (like : heap.Resembles crew heap')
    (confined : code.Confined holds owed known) (within : ∀ id ∈ known, id ∈ crew)
    (other : ∀ callback value next, code ≠ .complete callback value next) (thread : Thread σ)
    (keep : Code σ α → Activation σ) :
    Likewise crew (perform heap thread keep code) (perform heap' thread keep code) := by
  cases confined with
  | complete => exact absurd rfl (other _ _ _)
  | done | panic | threadName => exact ⟨like, rfl⟩
  | get =>
    rw [perform, perform, like.world]
    exact ⟨like, rfl⟩
  | modify => exact ⟨like.modifyWorld _, rfl⟩
  | poll mem =>
    rw [perform, perform, like.poll_eq (within _ mem)]
    exact ⟨like, rfl⟩
  | interrupt mem => exact ⟨resembles_requestInterrupt like (within _ mem) _, rfl⟩
  | clock =>
    rw [perform, perform, like.now]
    exact ⟨like, rfl⟩
  | report => exact (like.report _ _ _ _).likewise _

end Machine

/-! ### Steps -/

open Machine

variable {inline : ExecutorId → Prop} {answer : Option (FiberId × Ty × MailboxId)}
  {thread : Thread σ} {batches : Queue (Batch σ)} {segment base : List (Activation σ)}
  {focus : Focus σ} {stack : List (Frame σ)}

theorem Likewise.trans_eq {after after' next next' : Heap σ × Thread σ}
    (h : Likewise crew after after') (same : next = after) (same' : next' = after') :
    Likewise crew next next' := by
  rw [same, same']
  exact h

/-- A loop of a member in user code outside of registrations. -/
theorem Crewed.likewise_codes
    (h : Crewed inline crew answer heap batches.toList [.loop id focus stack])
    (like : heap.Resembles crew heap')
    (code : (∃ code, focus = .thunk code) ∨ (∃ code, focus = .raising code) ∨
      ∃ code, focus = .building code)
    (confined : focus.Confined inline (elders crew id)) (thread : Thread σ) :
    Likewise crew (stepLoop heap thread id stack focus) (stepLoop heap' thread id stack focus) := by
  have within : ∀ elder ∈ elders crew id, elder ∈ crew := fun _ old => (mem_of_elder old).1
  have requests {α : Type} {holds : Set FiberId → α → Prop} {code : Code σ α}
      {keep : Code σ α → Activation σ} (confined : code.Confined holds none (elders crew id)) :
      Likewise crew (perform heap thread keep code) (perform heap' thread keep code) :=
    likewise_perform like confined within (by rintro _ _ _ rfl; cases confined) thread keep
  rcases code with ⟨code, rfl⟩ | ⟨code, rfl⟩ | ⟨code, rfl⟩
  all_goals
    cases confined with | _ confined => ?_
    rcases code.done_or_panics_or_goes with ⟨value, rfl⟩ | ⟨payload, rfl⟩ | going
    · exact like.likewise _
    · exact (like.noteDefect _ _).likewise _
  · exact (requests confined).trans_eq (advance_of_holds (.thunk id code stack) going _ _)
      (advance_of_holds (.thunk id code stack) going _ _)
  · exact (requests confined).trans_eq (advance_of_holds (.raising id code stack) going _ _)
      (advance_of_holds (.raising id code stack) going _ _)
  · exact (requests confined).trans_eq (advance_of_holds (.building id code stack) going _ _)
      (advance_of_holds (.building id code stack) going _ _)

/-- The end of a registration of a member. -/
theorem likewise_park (like : heap.Resembles crew heap') (mem : id ∈ crew)
    (own : heap.suspension? callback = some ⟨id, state⟩) (thread : Thread σ)
    (stack : List (Frame σ)) :
    Likewise crew (park heap thread id callback stack) (park heap' thread id callback stack) := by
  unfold park
  rw [own, (like.suspensions callback id state mem).mpr own]
  split
  · exact (like.setRendezvous _ _).likewise _
  · exact ((like.setRendezvous _ _).report _ _ _ _).likewise _

/-- A loop of a member in a registration. -/
theorem Crewed.likewise_registrations {code : Code σ Unit}
    (h : Crewed inline crew answer heap batches.toList
      [.loop id (.registering callback code) stack])
    (like : heap.Resembles crew heap') (mem : id ∈ crew)
    (stage : Registering crew heap id callback code)
    (inlines' : ∀ executor, inline executor → heap'.isInline executor = true) :
    Likewise crew
      (stepLoop heap (drainer thread batches base) id stack (.registering callback code))
      (stepLoop heap' (drainer thread batches base) id stack (.registering callback code)) := by
  have within : ∀ elder ∈ elders crew id, elder ∈ crew := fun _ old => (mem_of_elder old).1
  have own := (h.members id mem).equipped.executor
  have panics (payload : Payload) : Likewise crew
      (stepLoop heap (drainer thread batches base) id stack
        (.registering callback (.panic payload)))
      (stepLoop heap' (drainer thread batches base) id stack
        (.registering callback (.panic payload))) :=
    ((like.noteDefect _ _).setRendezvous _ _).likewise _
  have requests {owed : Option CallbackId} (going : code.isOver = false)
      (confined : code.Confined (fun _ _ => True) owed (elders crew id))
      (other : ∀ callback value next, code ≠ .complete callback value next) : Likewise crew
      (stepLoop heap (drainer thread batches base) id stack (.registering callback code))
      (stepLoop heap' (drainer thread batches base) id stack (.registering callback code)) :=
    (likewise_perform like confined within other _ _).trans_eq
      (advance_of_holds (.registering id callback code stack) going _ _)
      (advance_of_holds (.registering id callback code stack) going _ _)
  cases stage with
  | owing fresh confined =>
    rcases code.done_or_panics_or_goes with ⟨result, rfl⟩ | ⟨payload, rfl⟩ | going
    · cases confined
    · exact panics payload
    -- Only the callback of this registration may be completed by it.
    · by_cases completes : ∃ value next, code = .complete callback value next
      · obtain ⟨value, next, rfl⟩ := completes
        exact likewise_completeCallback like mem fresh (h.executors _ own) (inlines' _ own) value
      · refine requests going confined fun other value next same => ?_
        subst same
        cases confined
        exact completes ⟨value, next, rfl⟩
  | asking type _ old => exact likewise_observe like (within _ old) _ _
  | asked fresh => exact likewise_park like mem fresh _ _
  | supplied supplied confined =>
    rcases code.done_or_panics_or_goes with ⟨result, rfl⟩ | ⟨payload, rfl⟩ | going
    · exact likewise_park like mem supplied _ _
    · exact panics payload
    · refine requests going confined ?_
      rintro other value next rfl
      cases confined

/-- A loop of a member is about to interpret a node. -/
theorem Crewed.likewise_nodes {current : Node σ}
    (h : Crewed inline crew answer heap batches.toList [.loop id (.node current) stack])
    (like : heap.Resembles crew heap') (mem : id ∈ crew)
    (inlines' : ∀ executor, inline executor → heap'.isInline executor = true)
    (unowned : ∀ callback state, heap.suspension? callback ≠ some ⟨heap.nextFiber, state⟩)
    (unowned' : ∀ callback state, heap'.suspension? callback ≠ some ⟨heap.nextFiber, state⟩)
    (confined : current.Confined inline (elders crew id)) :
    Likewise (crewAfter crew heap (some (.loop id (.node current) stack)))
      (stepLoop heap (drainer thread batches base) id stack (.node current))
      (stepLoop heap' (drainer thread batches base) id stack (.node current)) := by
  have own := (h.members id mem).equipped.executor
  simp only [stepLoop, like.shouldInterrupt_eq mem]
  cases due : heap.shouldInterrupt id with
  | true =>
    rw [crewAfter_of_due due]
    exact ((like.updateFiber id _).report _ _ _ _).likewise _
  | false =>
    by_cases forks : ∃ effect, current = .fork effect
    · obtain ⟨effect, rfl⟩ := forks
      rw [crewAfter_fork due]
      exact likewise_fork like mem unowned unowned' (h.executors _ own) (inlines' _ own)
    · rw [crewAfter_of_ne_fork (not_exists.mp forks)]
      exact likewise_interpret like mem confined (not_exists.mp forks) h.executors inlines'

/-- A crew does the same in two heaps that look alike to it. -/
theorem Crewed.likewise (h : Crewed inline crew answer heap batches.toList segment)
    (like : heap.Resembles crew heap')
    (inlines' : ∀ executor, inline executor → heap'.isInline executor = true)
    (unowned : ∀ callback state, heap.suspension? callback ≠ some ⟨heap.nextFiber, state⟩)
    (unowned' : ∀ callback state, heap'.suspension? callback ≠ some ⟨heap.nextFiber, state⟩)
    (thread : Thread σ) (outer : Option (Queue (Batch σ))) (base : List (Activation σ)) :
    Likewise (crewAfter crew heap segment.head?)
      (step heap (drainer thread batches (segment ++ .draining outer :: base)))
      (step heap' (drainer thread batches (segment ++ .draining outer :: base))) := by
  have unseen (mailbox : MailboxId) (f : Mailbox → Mailbox) :
      (heap.updateMailbox mailbox f).Resembles crew (heap'.updateMailbox mailbox f) :=
    like.unseen ⟨rfl, rfl, rfl, rfl⟩ ⟨rfl, rfl, rfl, rfl⟩
  cases h.work with
  | idle =>
    -- The drain looks at its queue only, which is on the thread.
    show Likewise crew (advance heap (drainer thread batches base) (.draining outer))
      (advance heap' (drainer thread batches base) (.draining outer))
    unfold advance
    dsimp only
    split <;> exact like.likewise _
  | @loop id focus stack mem confined frames =>
    cases confined with
    | node confined => exact h.likewise_nodes like mem inlines' unowned unowned' confined
    | value =>
      cases stack with
      | nil => exact likewise_completeFiber like mem _ _
      | cons => exact (like.report _ _ _ _).likewise _
    | cause cause =>
      show Likewise crew (fail heap _ id cause stack) (fail heap' _ id cause stack)
      unfold fail
      split
      · exact like.likewise _
      · exact likewise_completeFiber like mem _ _
    | thunk code => exact h.likewise_codes like (.inl ⟨_, rfl⟩) (.thunk code) _
    | raising code => exact h.likewise_codes like (.inr (.inl ⟨_, rfl⟩)) (.raising code) _
    | building code => exact h.likewise_codes like (.inr (.inr ⟨_, rfl⟩)) (.building code) _
  | registering mem stage => exact h.likewise_registrations like mem stage inlines'
  | @notifying exit observers under told =>
    cases observers with
    | nil => exact like.likewise _
    | cons observer rest =>
      have first := told observer List.mem_cons_self
      cases observer with
      | resume type callback =>
        -- The observer resumes a member, whose suspension is the same in both heaps.
        obtain ⟨waiter, state, there, mem, _⟩ := first
        have own := (h.members waiter mem).equipped.executor
        exact likewise_completeCallback like mem there (h.executors _ own) (inlines' _ own) _
      | call => exact first.elim
      | answer => exact like.likewise _
  | posting => exact (unseen _ _).likewise _
  | opening => exact (unseen _ _).likewise _

end Fibers
