import Fibers.Proofs.Machine.CrewLoop

/-!
# A crew at work

The members of a crew hand values to each other: an exit goes to those who wait for it, and a value
that meets its registration goes to the fiber that has registered.

## Main results

`Crewed.duty`: whatever a crew does next, its thread goes on running it, and only a fork changes the
crew. What is under the drain of the crew has no part in it.
-/

namespace Fibers

open Machine

variable {σ : Type} {inline : ExecutorId → Prop} {crew : List FiberId} {heap heap' : Heap σ}
  {queue queue' : List (Batch σ)} {segment segment' under : List (Activation σ)}
  {batches : Queue (Batch σ)} {thread : Thread σ} {id target : FiberId} {focus : Focus σ}
  {stack : List (Frame σ)} {callback : CallbackId} {state state' : Rendezvous σ}
  {exit : Exit Erased} {observers : List (Observer σ)}

/-! ### Ends -/

/-- The progress of one member changes, while work of the crew moves about. -/
theorem Crewed.progresses {f : FiberState σ → FiberState σ}
    (h : Crewed inline crew answer heap queue segment) (mem : target ∈ crew)
    (kept : ∀ fiber, (f fiber).environments = fiber.environments ∧
      (f fiber).executor = fiber.executor)
    (exit : ∀ exit, (heap.updateFiber target f).poll target = some exit →
      exit.Within (elders crew target))
    (observes : ∀ observer ∈ (heap.updateFiber target f).observers target,
      Observes crew answer heap target observer)
    (standing : ∀ callback id state, heap.suspension? callback = some ⟨id, state⟩ → id ∈ crew →
      Standing inline crew (heap.updateFiber target f) segment' id callback state)
    (queued : ∀ batch ∈ queue, Queued inline crew batch)
    (work : Segment inline crew answer (heap.updateFiber target f) segment')
    (placed : ∀ id ∈ crew, (heap.updateFiber target f).poll id = none →
      Placed (heap.updateFiber target f) queue segment' id)
    (due : ∀ id type mailbox, id ∈ crew → Due heap segment id type mailbox →
      Due (heap.updateFiber target f) segment' id type mailbox) :
    Crewed inline crew answer (heap.updateFiber target f) queue segment' := by
  refine ⟨h.distinct, h.executors, fun id mem' => ?_, standing, queued, work, placed,
    fun id type mailbox own => ?_⟩
  -- The long part is about the members, so the letter of the caller goes first.
  rotate_left
  · obtain ⟨mem', fits, promised⟩ := h.answered id type mailbox own
    exact ⟨mem', fits, due id type mailbox mem' promised⟩
  obtain ⟨knows, ⟨executor, scope⟩, last, waits⟩ := h.members id mem'
  have knows' := (heap.knows_updateFiber target id f).mpr knows
  by_cases own : id = target
  · subst own
    obtain ⟨fiber, present⟩ := knows.exists_fiber
    have present' := Heap.fiber?_updateFiber_of_known present f
    rw [Heap.executorOf, present] at executor
    rw [Heap.environments, present] at scope
    obtain ⟨environments, target⟩ := kept fiber
    refine ⟨knows', ⟨?_, ?_⟩, exit, observes⟩
    · rw [Heap.executorOf, present']
      dsimp only
      rwa [target]
    · rw [Heap.environments, present']
      dsimp only
      rwa [environments]
  · have same := h.fiber?_updateFiber mem' mem own f
    refine ⟨knows', ⟨?_, ?_⟩, ?_, ?_⟩
    · rwa [Heap.executorOf, same]
    · rwa [Heap.environments, same]
    · rwa [Heap.poll, same]
    · rwa [Heap.observers, Heap.progress, same]

/-- Once a member has ended, those who have waited for it are told. -/
theorem Crewed.ending {fiber : FiberState σ}
    (h : Crewed inline crew answer heap batches.toList [.loop id focus stack])
    (present : heap.fiber? id = some fiber) (running : fiber.progress = .running observers)
    (within : exit.Within (elders crew id)) :
    Crewed inline crew answer
      (heap.updateFiber id fun fiber => { fiber with progress := .done exit })
      batches.toList [.notifying exit observers] := by
  obtain ⟨mem, _⟩ := Segment.of_loop h.work
  obtain ⟨progress, flags, environments, executor, seed⟩ := fiber
  cases running
  have waiting : heap.observers id = observers := by
    rw [Heap.observers, Heap.progress, present]
    rfl
  have alive : heap.poll id = none := by rw [Heap.poll, present]
  have own := Heap.fiber?_updateFiber_of_known present fun fiber =>
    { fiber with progress := .done exit }
  have ended : (heap.updateFiber id fun fiber => { fiber with progress := .done exit }).poll id =
      some exit := by rw [Heap.poll, own]
  have others {other : FiberId} (mem' : other ∈ crew) (different : other ≠ id) :=
    h.fiber?_updateFiber mem' mem different fun fiber => { fiber with progress := .done exit }
  refine h.progresses mem (fun _ => ⟨rfl, rfl⟩) (fun last polled => ?_)
    (fun observer waits => ?_) (fun callback waiter state there mem' => ?_) h.queued ?_
    (fun other mem' running => ?_) fun other type mailbox mem' due => ?_
  -- The exit stays within the elders of the member, and nobody waits for it any longer.
  · cases ended.symm.trans polled
    exact within
  · rw [Heap.observers, Heap.progress, own] at waits
    cases waits
  · refine (h.standing callback waiter state there mem').mono (fun pledged => ?_)
      (fun _ _ mem => by cases List.mem_singleton.mp mem)
    refine pledged.mono (fun elder old type waits => ?_) fun called =>
      absurd called not_called_loop
    -- Whoever has waited for this fiber is about to be called.
    by_cases same : elder = id
    · subst same
      rw [waiting] at waits
      exact .inr ⟨exit, observers, type, List.mem_cons_self, waits⟩
    · left
      rwa [Heap.observers, Heap.progress, others (mem_of_elder old).1 same]
  -- The work left is to tell those who have waited: younger members, and perhaps the caller.
  · refine .notifying (fun observer waits => ?_) .idle (.inl rfl)
    have observes := (h.members id mem).observers observer (waiting ▸ waits)
    cases observer with
    | resume type callback =>
      obtain ⟨waiter, state, there, elder⟩ := observes
      exact ⟨waiter, state, there, (mem_of_elder elder).2,
        within.mono (elders_trans h.distinct elder)⟩
    | call => exact observes
    | answer type mailbox => exact ⟨id, mem, observes, ended⟩
  -- Whoever is still running is another member, and has its place yet.
  · have different : other ≠ id := by
      rintro rfl
      cases ended.symm.trans running
    rw [Heap.poll, others mem' different] at running
    cases h.placed other mem' running with
    | queued mem own => exact .queued mem own
    | looping mem =>
      cases List.mem_singleton.mp mem
      exact absurd rfl different
    | parked there => exact .parked there
  · -- So is the caller, if it has waited for this fiber.
    by_cases same : other = id
    · subst same
      cases due.of_loop [.notifying exit observers] with
      | awaited waits => exact .told List.mem_cons_self (waiting ▸ waits)
      | told mem waits => exact .told mem waits
      | posted mem | filled mem => cases List.mem_singleton.mp mem
      | given _ ended => cases alive.symm.trans ended
    · refine (due.of_loop _).mono (fun waits => .awaited ?_) (fun _ _ => .told)
        (fun _ mem => mem) (fun mem => mem) (fun last ended => ?_) rfl
      · rwa [Heap.observers, Heap.progress, others mem' same]
      · rwa [Heap.poll, others mem' same]

/-- The exit of a member that ends is on its way to those who wait for it. -/
theorem Crewed.ends (h : Crewed inline crew answer heap batches.toList [.loop id focus stack])
    (running : heap.poll id = none) (within : exit.Within (elders crew id)) :
    Carries inline crew answer thread fun base =>
      completeFiber heap (drainer thread batches base) id exit := by
  obtain ⟨mem, _⟩ := Segment.of_loop h.work
  obtain ⟨fiber, present⟩ := (h.members id mem).knows.exists_fiber
  obtain ⟨progress, flags, environments, executor, seed⟩ := fiber
  cases progress with
  | done exit =>
    rw [Heap.poll, present] at running
    cases running
  | running observers =>
    have crewed := h.ending present rfl within
    refine ⟨_, batches, [.notifying exit observers], fun base => ?_,
      crewed.calm (crewed.calm_refl.report thread.id .debug fun _ =>
        .fiberCompleted id exit.isSuccess observers.length)⟩
    simp only [completeFiber, present]
    rfl

/-- A value goes to the topmost frame, or ends the fiber. -/
theorem Crewed.values {value : Erased}
    (h : Crewed inline crew answer heap batches.toList [.loop id (.value value) stack])
    (running : heap.poll id = none) (within : value.Within (elders crew id)) :
    Carries inline crew answer thread fun base =>
      stepLoop heap (drainer thread batches base) id stack (.value value) := by
  obtain ⟨_, frames, _⟩ := Segment.of_loop h.work
  cases stack with
  | nil => exact h.ends running (Exit.within_success.mpr within)
  | cons frame rest =>
    obtain ⟨confined, below⟩ := List.forall_mem_cons.mp frames
    exact h.continues (h.calm_refl.report _ _ _) (.building (confined.resume within)) below

/-- A cause goes to the innermost handler, or ends the fiber. -/
theorem Crewed.causes {cause : Cause}
    (h : Crewed inline crew answer heap batches.toList [.loop id (.cause cause) stack])
    (running : heap.poll id = none) :
    Carries inline crew answer thread fun base =>
      stepLoop heap (drainer thread batches base) id stack (.cause cause) := by
  obtain ⟨_, frames, _⟩ := Segment.of_loop h.work
  simp only [stepLoop, fail]
  cases found : unwind stack with
  | none => exact h.ends running (Exit.within_failure cause)
  | some handled =>
    obtain ⟨handler, rest⟩ := handled
    obtain ⟨dropped, rfl⟩ := unwind_eq_some_iff.mp found
    obtain ⟨confined, below⟩ := List.forall_mem_cons.mp (List.forall_mem_append.mp frames).2
    cases confined with
    | fold confined =>
      exact h.continues h.calm_refl (.building (confined.recover cause)) below

/-! ### Suspensions -/

/-- The suspension of one member changes, while work of the crew moves about. -/
theorem Crewed.settles (h : Crewed inline crew answer heap queue segment)
    (own : heap.suspension? callback = some ⟨id, state⟩)
    (meets : ∀ other, heap'.suspension? other =
      if other = callback then some ⟨id, state'⟩ else heap.suspension? other)
    (fibers : heap'.fibers = heap.fibers) (executors : heap'.executors = heap.executors)
    (mailboxes : heap'.mailboxes = heap.mailboxes)
    (queued : ∀ batch ∈ queue', Queued inline crew batch)
    (work : Segment inline crew answer heap' segment')
    (called : ∀ other, other ≠ callback → Called segment other → Called segment' other)
    (asked : ∀ id other code stack, other ≠ callback →
      .loop id (.registering other code) stack ∈ segment' →
        .loop id (.registering other code) stack ∈ segment)
    (standing : Standing inline crew heap' segment' id callback state')
    (placed : ∀ other, (∃ batch ∈ queue, batch.fiber = other) ∨
        (∃ focus stack, .loop other focus stack ∈ segment) → Placed heap' queue' segment' other)
    (woken : ∀ stack, state = .parked stack → Placed heap' queue' segment' id)
    (due : ∀ id type mailbox, Due heap segment id type mailbox →
      Due heap segment' id type mailbox) :
    Crewed inline crew answer heap' queue' segment' := by
  have progress (other : FiberId) : heap'.progress other = heap.progress other :=
    Heap.progress_of_fibers fibers other
  have waits (other : FiberId) : heap'.observers other = heap.observers other := by
    rw [Heap.observers, progress]
    rfl
  have poll (other : FiberId) : heap'.poll other = heap.poll other := by
    rw [← Heap.exit?_progress, progress, Heap.exit?_progress]
  have owners (other : CallbackId) (suspension : Suspension σ)
      (present : heap.suspension? other = some suspension) :
      ∃ state, heap'.suspension? other = some ⟨suspension.fiber, state⟩ := by
    by_cases same : other = callback
    · subst same
      cases own.symm.trans present
      exact ⟨state', (meets other).trans (if_pos rfl)⟩
    · exact ⟨suspension.state, (meets other).trans ((if_neg same).trans present)⟩
  refine ⟨h.distinct, fun executor target => ?_, fun other mem' => ?_,
    fun other waiter state present mem' => ?_, queued, work, fun other mem' running => ?_,
    fun other type mailbox asks => ?_⟩
  -- The executors and the members are as before.
  · rw [Heap.isInline_of_executors executors]
    exact h.executors executor target
  · obtain ⟨knows, equipped, exit, observes⟩ := h.members other mem'
    refine ⟨?_, equipped.of_fibers fibers, fun last ended => exit last (poll other ▸ ended),
      fun observer there => ?_⟩
    · rwa [Heap.Knows, fibers]
    · exact (observes observer (waits other ▸ there)).mono owners fun _ => subset_rfl
  -- The other suspensions stand as they did, this one as is supposed.
  · rw [meets] at present
    split at present
    next same =>
      subst same
      cases present
      exact standing
    next different =>
      refine (h.standing other waiter state present mem').mono (fun pledged => pledged.mono
        (fun elder _ type there => .inl (waits elder ▸ there)) (called other different)) ?_
      exact fun code stack => asked waiter other code stack different
  -- A member that was parked here needs a new place; any other has kept its own.
  · cases h.placed other mem' (poll other ▸ running) with
    | queued mem own => exact placed other (.inl ⟨_, mem, own⟩)
    | looping mem => exact placed other (.inr ⟨_, _, mem⟩)
    | @parked awaited stack there =>
      by_cases same : awaited = callback
      · subst same
        cases own.symm.trans there
        exact woken stack rfl
      · exact .parked ((meets awaited).trans ((if_neg same).trans there))
  · obtain ⟨mem', fits, promised⟩ := h.answered other type mailbox asks
    have mail : heap'.mailboxes[mailbox.index]? = heap.mailboxes[mailbox.index]? := by
      rw [mailboxes]
    exact ⟨mem', fits.congr mail, (due other type mailbox promised).mono
      (fun there => .awaited (waits other ▸ there)) (fun _ _ => .told) (fun _ mem => mem)
      (fun mem => mem) (fun exit ended => (poll other).trans ended) mail⟩

theorem Heap.suspension?_setRendezvous_of_known (own : heap.suspension? callback = some ⟨id, state⟩)
    (state' : Rendezvous σ) (other : CallbackId) :
    (heap.setRendezvous callback state').suspension? other =
      if other = callback then some ⟨id, state'⟩ else heap.suspension? other := by
  rw [heap.suspension?_setRendezvous]
  by_cases same : other = callback
  · subst same
    rw [if_pos rfl, if_pos rfl, own]
    rfl
  · rw [if_neg same, if_neg fun index => same (CallbackId.ext_index index.symm)]

/-- A suspension whose state stays as it is. -/
theorem Heap.suspension?_same (own : heap.suspension? callback = some ⟨id, state⟩)
    (other : CallbackId) : heap.suspension? other =
      if other = callback then some ⟨id, state⟩ else heap.suspension? other := by
  split
  next same => rw [same, own]
  next => rfl

/-! ### Registrations -/

/-- The registration of a loop goes on, and so does its suspension. -/
theorem Crewed.registers {code rest : Code σ Unit}
    (h : Crewed inline crew answer heap batches.toList
      [.loop id (.registering callback code) stack])
    (own : heap.suspension? callback = some ⟨id, state⟩) (awake : ∀ frames, state ≠ .parked frames)
    (meets : ∀ other, heap'.suspension? other =
      if other = callback then some ⟨id, state'⟩ else heap.suspension? other)
    (fibers : heap'.fibers = heap.fibers) (executors : heap'.executors = heap.executors)
    (mailboxes : heap'.mailboxes = heap.mailboxes)
    (stage : Registering crew heap' id callback rest)
    (standing : Standing inline crew heap' [.loop id (.registering callback rest) stack] id callback
      state') :
    Carries inline crew answer thread fun base => (heap', refocus (drainer thread batches base) id
      (.registering callback rest) stack) := by
  obtain ⟨mem, frames, _⟩ := Segment.of_loop h.work
  refine ⟨heap', batches, [.loop id (.registering callback rest) stack], fun _ => rfl,
    h.settles own meets fibers executors mailboxes h.queued (.registering mem stage frames)
    (fun _ _ called => absurd called not_called_loop) ?_ standing
    (fun _ busy => placed_of_busy busy (List.Subset.refl _) (.looping List.mem_cons_self))
    (fun frames parked => absurd parked (awake frames)) fun _ _ _ due => due.of_loop _⟩
  -- No other callback is registered.
  intro other awaited code stack different mem
  cases List.mem_singleton.mp mem
  exact absurd rfl different

/-- A registration ends, and its loop goes on with something else. -/
theorem Crewed.leaves {code : Code σ Unit} {focus' : Focus σ}
    (h : Crewed inline crew answer heap batches.toList
      [.loop id (.registering callback code) stack])
    (own : heap.suspension? callback = some ⟨id, state⟩) (awake : ∀ frames, state ≠ .parked frames)
    (confined : focus'.Confined inline (elders crew id))
    (ended : state' = .resumed ∨ state' = .abandoned) :
    Carries inline crew answer thread fun base => (heap.setRendezvous callback state',
      refocus (drainer thread batches base) id focus' stack) := by
  obtain ⟨mem, frames, _⟩ := Segment.of_loop h.work
  refine ⟨_, batches, [.loop id focus' stack], fun _ => rfl,
    h.settles own (Heap.suspension?_setRendezvous_of_known own state') rfl rfl rfl h.queued
    (.loop mem confined frames) (fun _ _ called => absurd called not_called_loop) ?_ ?_
    (fun _ busy => placed_of_busy busy (List.Subset.refl _) (.looping List.mem_cons_self))
    (fun frames parked => absurd parked (awake frames)) fun _ _ _ due => due.of_loop _⟩
  · intro other awaited code stack _ mem
    cases List.mem_singleton.mp mem
    cases confined
  · rcases ended with rfl | rfl
    · exact .resumed
    · exact .abandoned

/-- A registration that has not been answered leaves its frames with the suspension. -/
theorem Crewed.parks
    (h : Crewed inline crew answer heap batches.toList
      [.loop id (.registering callback (.done ())) stack])
    (own : heap.suspension? callback = some ⟨id, .registering⟩) :
    Carries inline crew answer thread fun base =>
      park heap (drainer thread batches base) id callback stack := by
  obtain ⟨mem, frames, _⟩ := Segment.of_loop h.work
  have meets := Heap.suspension?_setRendezvous_of_known own (.parked stack)
  have crewed : Crewed inline crew answer (heap.setRendezvous callback (.parked stack))
      batches.toList [] := by
    refine h.settles own meets rfl rfl rfl h.queued .idle
      (fun _ _ called => absurd called not_called_loop) (fun _ _ _ _ _ mem => by cases mem)
      (.parked frames ?_) (fun _ busy => placed_of_busy busy (List.Subset.refl _)
        (.parked ((meets callback).trans (if_pos rfl)))) nofun fun _ _ _ due => due.of_loop _
    -- Its elder has promised to call.
    cases h.standing callback id .registering own mem with
    | registering pledged =>
      refine (pledged stack List.mem_cons_self).mono (fun _ _ _ waits => .inl waits) ?_
      exact fun called => absurd called not_called_loop
  refine ⟨_, batches, [], fun base => ?_,
    crewed.calm (crewed.calm_refl.report thread.id .trace fun _ => .fiberSuspended id)⟩
  simp only [park, own]
  rfl

/-- A fiber that has not ended gets one more observer. -/
def FiberState.register (observer : Observer σ) (fiber : FiberState σ) : FiberState σ :=
  match fiber.progress with
  | .running observers => { fiber with progress := .running (observers ++ [observer]) }
  | .done _ => fiber

/-- A registration asks for the exit of an elder that has ended: it is told at once. -/
theorem Crewed.asks_ended {type : Ty} {target : FiberId}
    (h : Crewed inline crew answer heap batches.toList
      [.loop id (.registering callback (.observe target type callback .done)) stack])
    (own : heap.suspension? callback = some ⟨id, .registering⟩) (elder : target ∈ elders crew id)
    (ended : heap.poll target = some exit) :
    Crewed inline crew answer heap batches.toList [.notifying exit [.resume type callback],
      .loop id (.registering callback (.done ())) stack] := by
  obtain ⟨mem, frames, _⟩ := Segment.of_loop h.work
  have within := (h.members target (mem_of_elder elder).1).exit exit ended
  have waits : Called (σ := σ) [.notifying exit [.resume type callback],
      .loop id (.registering callback (.done ())) stack] callback :=
    ⟨exit, [.resume type callback], type, List.mem_cons_self, List.mem_cons_self⟩
  refine h.settles own (Heap.suspension?_same own) rfl rfl rfl h.queued ?_
    (fun _ _ called => absurd called not_called_loop) ?_ (.registering fun _ _ => .inr waits)
    (fun _ busy => placed_of_busy busy (List.Subset.refl _)
      (.looping (List.mem_cons_of_mem _ List.mem_cons_self)))
    (by rintro _ ⟨⟩) fun _ _ _ due => due.of_loop _
  · refine .notifying ?_ (.registering mem (.asked own) frames) (.inr ⟨_, _, _, rfl⟩)
    refine List.forall_mem_singleton.mpr ⟨id, .registering, own, mem, ?_⟩
    exact within.mono (elders_trans h.distinct elder)
  · intro other awaited code' stack' different mem
    cases List.mem_singleton.mp ((List.mem_cons.mp mem).resolve_left (by rintro ⟨⟩))
    exact absurd rfl different

/-- A registration asks for the exit of an elder that runs: it becomes one of its observers. -/
theorem Crewed.asks_running {type : Ty} {target : FiberId} {fiber : FiberState σ}
    (h : Crewed inline crew answer heap batches.toList
      [.loop id (.registering callback (.observe target type callback .done)) stack])
    (own : heap.suspension? callback = some ⟨id, .registering⟩) (elder : target ∈ elders crew id)
    (present : heap.fiber? target = some fiber) (running : fiber.progress = .running observers) :
    Crewed inline crew answer (heap.updateFiber target (.register (.resume type callback)))
      batches.toList [.loop id (.registering callback (.done ())) stack] := by
  obtain ⟨mem, frames, _⟩ := Segment.of_loop h.work
  have old := (mem_of_elder elder).1
  let register : FiberState σ → FiberState σ := .register (.resume type callback)
  obtain ⟨progress, flags, environments, executor, seed⟩ := fiber
  cases running
  have waiting : heap.observers target = observers := by
    rw [Heap.observers, Heap.progress, present]
    rfl
  have alive : heap.poll target = none := by rw [Heap.poll, present]
  have changed := Heap.fiber?_updateFiber_of_known present register
  have waiting' : (heap.updateFiber target register).observers target =
      observers ++ [.resume type callback] := by
    rw [Heap.observers, Heap.progress, changed]
    rfl
  have alive' : (heap.updateFiber target register).poll target = none := by
    rw [Heap.poll, changed]
    rfl
  -- Nobody else notices, and who has waited for the elder before still does.
  have poll {other : FiberId} (mem' : other ∈ crew) :
      (heap.updateFiber target register).poll other = heap.poll other := by
    by_cases same : other = target
    · rw [same, alive, alive']
    · rw [Heap.poll, Heap.poll, h.fiber?_updateFiber mem' old same]
  have waits {other : FiberId} (mem' : other ∈ crew) {observer : Observer σ}
      (waits : observer ∈ heap.observers other) :
      observer ∈ (heap.updateFiber target register).observers other := by
    by_cases same : other = target
    · subst same
      exact waiting' ▸ List.mem_append_left _ (waiting ▸ waits)
    · rwa [Heap.observers, Heap.progress, h.fiber?_updateFiber mem' old same]
  refine h.progresses old (fun fiber => ?_) (fun last polled => ?_)
    (fun observer waits => ?_) (fun other waiter state there mem' => ?_) h.queued
    (.registering mem (.asked own) frames) (fun other mem' polled => ?_)
    fun other type' mailbox mem' due => ?_
  · obtain ⟨_ | _, _, _, _, _⟩ := fiber <;> exact ⟨rfl, rfl⟩
  · cases alive'.symm.trans polled
  -- One observer is new: the suspension of a younger member.
  · rw [waiting'] at waits
    rcases List.mem_append.mp waits with old' | new
    · exact (h.members target old).observers observer (waiting ▸ old')
    · obtain rfl := List.mem_singleton.mp new
      exact ⟨id, .registering, own, elder⟩
  -- The observer that has just been added promises this suspension its value.
  · by_cases same : other = callback
    · subst same
      cases own.symm.trans there
      refine .registering fun _ _ => .inl ⟨target, elder, type, ?_⟩
      exact waiting' ▸ List.mem_append_right _ List.mem_cons_self
    · refine (h.standing other waiter state there mem').mono (fun pledged => pledged.mono
        (fun elder' old' type there => .inl (waits (mem_of_elder old').1 there))
        fun called => absurd called not_called_loop) fun code stack mem => ?_
      cases List.mem_singleton.mp mem
      exact absurd rfl same
  · exact (h.placed other mem' (poll mem' ▸ polled)).of_loop (List.Subset.refl _)
      (.looping List.mem_cons_self) fun _ _ there => there
  · exact (due.of_loop _).mono (fun there => .awaited (waits mem' there)) (fun _ _ => .told)
      (fun _ mem => mem) (fun mem => mem) (fun last ended => (poll mem').trans ended) rfl

/-- A registration asks for the exit of an elder. -/
theorem Crewed.asks {type : Ty} {target : FiberId}
    (h : Crewed inline crew answer heap batches.toList
      [.loop id (.registering callback (.observe target type callback .done)) stack])
    (own : heap.suspension? callback = some ⟨id, .registering⟩) (elder : target ∈ elders crew id) :
    Carries inline crew answer thread fun base => observe heap
      (refocus (drainer thread batches base) id (.registering callback (.done ())) stack) target
      (.resume type callback) := by
  obtain ⟨fiber, present⟩ := (h.members target (mem_of_elder elder).1).knows.exists_fiber
  obtain ⟨progress, flags, environments, executor, seed⟩ := fiber
  cases progress with
  | done exit =>
    have ended : heap.poll target = some exit := by rw [Heap.poll, present]
    refine ⟨heap, batches, [.notifying exit [.resume type callback],
      .loop id (.registering callback (.done ())) stack], fun base => ?_,
      h.asks_ended own elder ended⟩
    simp only [observe, present]
    rfl
  | running observers =>
    refine ⟨heap.updateFiber target (.register (.resume type callback)), batches,
      [.loop id (.registering callback (.done ())) stack], fun base => ?_,
      h.asks_running own elder present rfl⟩
    simp only [observe, present]
    rfl

/-- A request of a registration, other than to complete its own callback, leaves the suspension of
the registration as it is. -/
theorem Crewed.inquires {code : Code σ Unit} {owed : Option CallbackId}
    (h : Crewed inline crew answer heap batches.toList
      [.loop id (.registering callback code) stack])
    (own : heap.suspension? callback = some ⟨id, state⟩) (awake : ∀ frames, state ≠ .parked frames)
    (confined : code.Confined (fun _ _ => True) owed (elders crew id)) (going : code.isOver = false)
    (other : ∀ callback value next, code ≠ .complete callback value next)
    (stage : ∀ heap' : Heap σ, ∀ rest : Code σ Unit,
      heap'.suspension? callback = some ⟨id, state⟩ →
      rest.Confined (fun _ _ => True) owed (elders crew id) →
        Registering crew heap' id callback rest)
    (standing : ∀ heap' : Heap σ, ∀ rest : Code σ Unit,
      rest.Confined (fun _ _ => True) owed (elders crew id) → Standing inline crew heap'
        [.loop id (.registering callback rest) stack] id callback state) :
    Carries inline crew answer thread fun base =>
      stepLoop heap (drainer thread batches base) id stack (.registering callback code) := by
  obtain ⟨mem, _⟩ := Segment.of_loop h.work
  obtain ⟨heap', rest, performed, calm, confined'⟩ :=
    h.exists_answer confined going other fun code => .loop id (.registering callback code) stack
  have own' := (calm.own _ _ _ mem).mpr own
  exact ((h.calm calm).registers own' awake (Heap.suspension?_same own') rfl rfl rfl
    (stage heap' rest own' confined') (standing heap' rest confined')).congr fun base =>
      (advance_of_holds (.registering id callback code stack) going _ _).trans (performed base)

/-- A registration makes a request, ends or panics. -/
theorem Crewed.registrations {code : Code σ Unit}
    (h : Crewed inline crew answer heap batches.toList
      [.loop id (.registering callback code) stack]) :
    Carries inline crew answer thread fun base =>
      stepLoop heap (drainer thread batches base) id stack (.registering callback code) := by
  obtain ⟨mem, _, confined | ⟨_, _, same, stage⟩⟩ := Segment.of_loop h.work
  · cases confined
  cases same
  have panics (payload : Payload) {state : Rendezvous σ} (same : code = .panic payload)
      (own : heap.suspension? callback = some ⟨id, state⟩)
      (awake : ∀ frames, state ≠ .parked frames) :
      Carries inline crew answer thread fun base =>
        stepLoop heap (drainer thread batches base) id stack (.registering callback code) := by
    subst same
    have calm := h.calm_refl.noteDefect thread.id payload
    exact (h.calm calm).leaves ((calm.own _ _ _ mem).mpr own) awake (.cause (.ofPayload payload))
      (.inr rfl)
  cases stage with
  | owing fresh confined =>
    rcases code.done_or_panics_or_goes with ⟨result, rfl⟩ | ⟨payload, same⟩ | going
    · cases confined
    · exact panics payload same fresh (by rintro _ ⟨⟩)
    · by_cases own : ∃ value next, code = .complete callback value next
      · obtain ⟨value, next, rfl⟩ := own
        cases confined with
        | complete within rest =>
          have meets := Heap.suspension?_setRendezvous_of_known fresh (.completed value)
          refine (h.registers fresh (by rintro _ ⟨⟩) meets rfl rfl rfl
            (.supplied ((meets callback).trans (if_pos rfl)) rest)
            (.completed fun _ _ _ => within)).congr fun base => ?_
          simp only [stepLoop, perform, completeCallback, fresh]
          rfl
      · refine h.inquires fresh (by rintro _ ⟨⟩) confined going
          (fun other value next same => own ?_)
          (fun heap' rest own confined => .owing own confined) fun heap' rest confined => ?_
        · subst same
          cases confined with
          | complete => exact ⟨value, next, rfl⟩
        · -- It still owes a value, so it has not ended.
          refine .registering fun frames mem => ?_
          cases List.mem_singleton.mp mem
          cases confined
  | asking type fresh elder => exact h.asks fresh elder
  | asked fresh => exact h.parks fresh
  | supplied supplied confined =>
    rename_i value
    have within : value.Within (elders crew id) := by
      cases h.standing callback id _ supplied mem with
      | completed within => exact within code stack List.mem_cons_self
    rcases code.done_or_panics_or_goes with ⟨result, rfl⟩ | ⟨payload, same⟩ | going
    · refine (h.leaves supplied (by rintro _ ⟨⟩) (.value within) (.inl rfl)).congr fun base => ?_
      simp only [stepLoop, park, supplied]
    · exact panics payload same supplied (by rintro _ ⟨⟩)
    · refine h.inquires supplied (by rintro _ ⟨⟩) confined going ?_
        (fun heap' rest own confined => .supplied own confined)
        fun _ _ _ => .completed fun _ _ _ => within
      rintro other value next rfl
      cases confined

/-! ### Notifications -/

/-- The suspension of one callback changes: only a registration of its own can notice. -/
theorem Segment.settles (h : Segment inline crew answer heap segment)
    (own : heap.suspension? callback = some ⟨id, state⟩)
    (meets : ∀ other, heap'.suspension? other =
      if other = callback then some ⟨id, state'⟩ else heap.suspension? other)
    (fibers : heap'.fibers = heap.fibers)
    (stage : ∀ owner code stack, .loop owner (.registering callback code) stack ∈ segment →
      Registering crew heap owner callback code → Registering crew heap' owner callback code) :
    Segment inline crew answer heap' segment := by
  refine h.mono (fun other suspension present => ?_)
    (fun owner other code stack mem _ registering => ?_) fun other _ exit ended => ?_
  · by_cases same : other = callback
    · subst same
      cases own.symm.trans present
      exact ⟨state', (meets other).trans (if_pos rfl)⟩
    · exact ⟨suspension.state, (meets other).trans ((if_neg same).trans present)⟩
  · by_cases same : other = callback
    · subst same
      exact stage owner code stack mem registering
    · have kept := (meets other).trans (if_neg same)
      cases registering with
      | owing fresh code => exact .owing (kept.trans fresh) code
      | asking type fresh elder => exact .asking type (kept.trans fresh) elder
      | asked fresh => exact .asked (kept.trans fresh)
      | supplied supplied code => exact .supplied (kept.trans supplied) code
  · rwa [Heap.poll, Heap.fiber?, fibers]

theorem Segment.of_notifying
    (h : Segment inline crew answer heap (.notifying exit observers :: under)) :
    (∀ observer ∈ observers, Told crew answer heap exit observer) ∧
      Segment inline crew answer heap under ∧
      (under = [] ∨ ∃ id callback stack,
        under = [.loop id (.registering callback (.done ())) stack]) := by
  cases h with
  | notifying told below asked => exact ⟨told, below, asked⟩

/-- Once an observer has been told, the callbacks of the others still are to be called. -/
theorem Called.tail {observer : Observer σ} {other : CallbackId}
    (h : Called (.notifying exit (observer :: observers) :: under) other)
    (different : ∀ type, observer ≠ .resume type other) :
    Called (.notifying exit observers :: under) other := by
  obtain ⟨last, waiting, type, mem, waits⟩ := h
  rcases List.mem_cons.mp mem with same | mem
  · cases same
    exact ⟨exit, observers, type, List.mem_cons_self,
      (List.mem_cons.mp waits).resolve_left (different type).symm⟩
  · exact ⟨last, waiting, type, List.mem_cons_of_mem _ mem, waits⟩

/-- Once an observer other than the caller has been told, the caller still is to be. -/
theorem Due.tail {observer : Observer σ} {type : Ty} {mailbox : MailboxId}
    (h : Due heap (.notifying exit (observer :: observers) :: under) id type mailbox)
    (different : observer ≠ .answer type mailbox) :
    Due heap (.notifying exit observers :: under) id type mailbox := by
  have still {activation : Activation σ}
      (other : ∀ observers, activation ≠ .notifying exit observers)
      (mem : activation ∈ .notifying exit (observer :: observers) :: under) :
      activation ∈ .notifying exit observers :: under :=
    List.mem_cons_of_mem _ ((List.mem_cons.mp mem).resolve_left (other _))
  refine h.mono .awaited (fun last waiting mem waits => ?_) (fun _ => still (by rintro _ ⟨⟩))
    (still (by rintro _ ⟨⟩)) (fun _ ended => ended) rfl
  rcases List.mem_cons.mp mem with same | mem
  · cases same
    exact .told List.mem_cons_self ((List.mem_cons.mp waits).resolve_left different.symm)
  · exact .told (List.mem_cons_of_mem _ mem) waits

/-- The suspension of an observer has taken note of the exit, and the others are told next. -/
theorem Crewed.told {type : Ty}
    (h : Crewed inline crew answer heap queue
      (.notifying exit (.resume type callback :: observers) :: under))
    (own : heap.suspension? callback = some ⟨id, state⟩)
    (meets : ∀ other, heap'.suspension? other =
      if other = callback then some ⟨id, state'⟩ else heap.suspension? other)
    (fibers : heap'.fibers = heap.fibers) (executors : heap'.executors = heap.executors)
    (mailboxes : heap'.mailboxes = heap.mailboxes)
    (queued : ∀ batch ∈ queue', Queued inline crew batch) (waits : queue ⊆ queue')
    (work : Segment inline crew answer heap' (.notifying exit observers :: under))
    (standing : Standing inline crew heap' (.notifying exit observers :: under) id callback state')
    (woken : ∀ stack, state = .parked stack →
      Placed heap' queue' (.notifying exit observers :: under) id) :
    Crewed inline crew answer heap' queue' (.notifying exit observers :: under) := by
  refine h.settles own meets fibers executors mailboxes queued work
    (fun other different called => called.tail ?_) (fun owner other code stack _ mem => ?_) standing
    (fun other busy => ?_) woken fun _ _ _ due => due.tail (by rintro ⟨⟩)
  · rintro _ ⟨⟩
    exact different rfl
  · exact List.mem_cons_of_mem _ ((List.mem_cons.mp mem).resolve_left (by rintro ⟨⟩))
  · rcases busy with ⟨batch, mem, same⟩ | ⟨focus, stack, mem⟩
    · exact .queued (waits mem) same
    · exact .looping (List.mem_cons_of_mem _ ((List.mem_cons.mp mem).resolve_left (by rintro ⟨⟩)))

/-- A member that waits is told an exit: it goes on with it behind the others, or finds it once its
registration has returned. -/
theorem Crewed.tells {type : Ty}
    (h : Crewed inline crew answer heap batches.toList
      (.notifying exit (.resume type callback :: observers) :: under)) :
    Carries inline crew answer thread fun base => completeCallback heap
      (drainer thread batches (.notifying exit observers :: under ++ base)) callback
      ⟨.exit type, exit.recover type⟩ := by
  obtain ⟨told, below, asked⟩ := h.work.of_notifying
  obtain ⟨⟨waiter, state, own, mem, within⟩, others⟩ := List.forall_mem_cons.mp told
  have work : Segment inline crew answer heap (.notifying exit observers :: under) :=
    .notifying others below asked
  have loops {owner : FiberId} {focus : Focus σ} {stack : List (Frame σ)}
      (mem : .loop owner focus stack ∈ Activation.notifying exit observers :: under) :
      .loop owner focus stack ∈
        Activation.notifying exit (.resume type callback :: observers) :: under :=
    List.mem_cons_of_mem _ ((List.mem_cons.mp mem).resolve_left (by rintro ⟨⟩))
  have value := within.recover type
  -- Nothing happens to those who have been told already, or do not want to know.
  have ignored (standing : Standing inline crew heap (.notifying exit observers :: under) waiter
        callback state) (awake : ∀ frames, state ≠ .parked frames)
      (same : ∀ base, completeCallback heap
        (drainer thread batches (.notifying exit observers :: under ++ base)) callback
        ⟨.exit type, exit.recover type⟩ =
          (heap, drainer thread batches (.notifying exit observers :: under ++ base))) :
      Carries inline crew answer thread fun base => completeCallback heap
        (drainer thread batches (.notifying exit observers :: under ++ base)) callback
        ⟨.exit type, exit.recover type⟩ :=
    ⟨heap, batches, .notifying exit observers :: under, same,
      h.told own (Heap.suspension?_same own) rfl rfl rfl h.queued (List.Subset.refl _) work standing
        fun frames parked => absurd parked (awake frames)⟩
  cases state with
  | registering =>
    have meets := Heap.suspension?_setRendezvous_of_known own
      (.completed ⟨.exit type, exit.recover type⟩)
    refine ⟨_, batches, .notifying exit observers :: under, fun base => ?_,
      h.told own meets rfl rfl rfl h.queued (List.Subset.refl _) (work.settles own meets rfl ?_)
        (.completed fun _ _ _ => value) (by rintro _ ⟨⟩)⟩
    · simp only [completeCallback, own]
    · intro owner code stack mem stage
      -- The registration that has asked is over, and the value is there.
      rcases asked with rfl | ⟨id, awaited, frames, rfl⟩
      · cases mem with
        | tail _ mem => cases mem
      · cases List.mem_singleton.mp ((List.mem_cons.mp mem).resolve_left (by rintro ⟨⟩))
        cases stage with
        | owing _ confined => cases confined
        | asked fresh =>
          cases own.symm.trans fresh
          exact .supplied ((meets callback).trans (if_pos rfl)) (.done trivial)
        | supplied supplied => cases own.symm.trans supplied
  | parked stack =>
    have meets := Heap.suspension?_setRendezvous_of_known own .resumed
    cases h.standing callback waiter _ own mem with
    | parked frames _ =>
      have woken : Queued inline crew ⟨waiter, .succeed ⟨.exit type, exit.recover type⟩, stack⟩ :=
        ⟨mem, .succeed value, frames⟩
      have crewed : Crewed inline crew answer (heap.setRendezvous callback .resumed)
          (batches.push ⟨waiter, .succeed ⟨.exit type, exit.recover type⟩, stack⟩).toList
          (.notifying exit observers :: under) := by
        rw [Queue.toList_push]
        refine h.told own meets rfl rfl rfl
          (List.forall_mem_append.mpr ⟨h.queued, List.forall_mem_singleton.mpr woken⟩)
          (List.subset_append_left _ _) (work.settles own meets rfl ?_) .resumed
          fun _ _ => .queued (List.mem_append_right _ List.mem_cons_self) rfl
        -- No registration is under way for a fiber that is parked.
        intro owner code stack mem stage
        cases stage with
        | owing fresh | asked fresh | asking _ fresh => cases own.symm.trans fresh
        | supplied supplied => cases own.symm.trans supplied
      have reported := crewed.calm (crewed.calm_refl.report thread.id .trace fun _ =>
        .fiberResumed waiter stack.length)
      refine ⟨_, _, .notifying exit observers :: under, fun base => ?_, reported⟩
      simp only [completeCallback, own, resume]
      exact execute_drainer (reported.executors _ (reported.members waiter mem).equipped.executor) _
  | completed =>
    refine ignored ?_ (by rintro _ ⟨⟩) fun base => by simp only [completeCallback, own]
    cases h.standing callback waiter _ own mem with
    | completed within => exact .completed fun code stack mem => within code stack (loops mem)
  | resumed =>
    exact ignored .resumed (by rintro _ ⟨⟩) fun base => by simp only [completeCallback, own]
  | abandoned =>
    exact ignored .abandoned (by rintro _ ⟨⟩) fun base => by simp only [completeCallback, own]

/-- Something else is next above a drain, and whoever was to be called still is. Only the mailbox of
the caller may notice. -/
theorem Crewed.shifts (mailboxes : Array Mailbox)
    (h : Crewed inline crew answer heap batches.toList segment)
    (work : Segment inline crew answer heap segment')
    (called : ∀ callback, Called segment callback → Called segment' callback)
    (loops : ∀ id focus stack, .loop id focus stack ∈ segment' ↔ .loop id focus stack ∈ segment)
    (answered : ∀ id type mailbox, answer = some (id, type, mailbox) → Fits heap mailbox →
      Due heap segment id type mailbox → Fits { heap with mailboxes := mailboxes } mailbox ∧
        Due { heap with mailboxes := mailboxes } segment' id type mailbox) :
    Crewed inline crew answer { heap with mailboxes := mailboxes } batches.toList segment' := by
  have calm : Calm inline crew none heap { heap with mailboxes := mailboxes } :=
    ⟨h.calm_refl.knows, fun _ _ => rfl, h.calm_refl.owners, fun _ _ _ _ => Iff.rfl, h.executors,
      fun id mem => (h.calm_refl.equipped id mem).of_fibers rfl, nofun⟩
  refine ⟨h.distinct, h.executors, fun id mem => (h.members id mem).calm mem calm,
    fun callback id state present mem => ?_, h.queued,
    work.mono calm.owners (fun _ _ _ _ _ mem stage => stage.calm mem calm)
      (fun _ _ _ ended => ended), fun id mem running => ?_, fun id type mailbox own => ?_⟩
  · exact (h.standing callback id state present mem).mono (fun pledged => pledged.mono
      (fun _ _ _ waits => .inl waits) (called callback)) fun code stack => (loops _ _ _).mp
  · cases h.placed id mem running with
    | queued mem own => exact .queued mem own
    | looping mem => exact .looping ((loops _ _ _).mpr mem)
    | parked there => exact .parked there
  · obtain ⟨mem, fits, due⟩ := h.answered id type mailbox own
    exact ⟨mem, answered id type mailbox own fits due⟩

/-- A member that has ended tells its exit to the next one that waits for it. -/
theorem Crewed.announces
    (h : Crewed inline crew answer heap batches.toList (.notifying exit observers :: under)) :
    Carries inline crew answer thread fun base =>
      advance heap (drainer thread batches (under ++ base)) (.notifying exit observers) := by
  obtain ⟨told, below, asked⟩ := h.work.of_notifying
  cases observers with
  | nil =>
    have still {activation : Activation σ} (other : activation ≠ .notifying exit [])
        (mem : activation ∈ .notifying exit [] :: under) : activation ∈ under :=
      (List.mem_cons.mp mem).resolve_left other
    -- Nobody is left to tell, so whoever is to be told is so by something below.
    refine ⟨heap, batches, under, fun _ => rfl, h.shifts heap.mailboxes below ?_ ?_
      fun id type mailbox _ fits due => ⟨fits, due.mono .awaited (fun last waiting mem waits => ?_)
        (fun _ => still (by rintro ⟨⟩)) (still (by rintro ⟨⟩)) (fun _ ended => ended) rfl⟩⟩
    · rintro callback ⟨last, waiting, type, mem, waits⟩
      exact ⟨last, waiting, type, still (by rintro ⟨⟩; cases waits) mem, waits⟩
    · exact fun id focus stack => by simp
    · exact .told (still (by rintro ⟨⟩; cases waits) mem) waits
  | cons observer rest =>
    obtain ⟨first, others⟩ := List.forall_mem_cons.mp told
    cases observer with
    | resume type callback => exact h.tells
    | call => exact first.elim
    | answer type mailbox =>
      obtain ⟨own, mem, asks, ended⟩ := first
      refine ⟨heap, batches,
        .posting mailbox (exit.recover type).erase :: .notifying exit rest :: under, fun _ => rfl,
        h.shifts heap.mailboxes (.posting mem asks ended (.notifying others below asked)) ?_ ?_ ?_⟩
      · intro callback called
        obtain ⟨last, waiting, type, mem, waits⟩ := called.tail (by rintro _ ⟨⟩)
        exact ⟨last, waiting, type, List.mem_cons_of_mem _ mem, waits⟩
      · exact fun id focus stack => by simp
      · -- There is one caller, and its mailbox is filled next.
        intro id type' mailbox' asks' fits _
        cases asks.symm.trans asks'
        exact ⟨fits, .posted List.mem_cons_self⟩

/-! ### The mailbox of the caller -/

/-- The exit of the fiber that the caller waits for is put into its mailbox. -/
theorem Crewed.posts {mailbox : MailboxId} {last : Exit Erased} {type : Ty}
    (h : Crewed inline crew answer heap batches.toList
      (.posting mailbox (exit.recover type).erase :: .notifying last observers :: under))
    (own : answer = some (id, type, mailbox)) (ended : heap.poll id = some exit)
    (below : Segment inline crew answer heap (.notifying last observers :: under)) :
    Carries inline crew answer thread fun base => advance heap
      (drainer thread batches (.notifying last observers :: under ++ base))
      (.posting mailbox (exit.recover type).erase) := by
  let posted (box : Mailbox) : Mailbox := { box with slot := some (exit.recover type).erase }
  refine ⟨heap.updateMailbox mailbox posted, batches,
    .opening mailbox :: .notifying last observers :: under, fun _ => rfl,
    h.shifts _ (.opening below) ?_ (fun id focus stack => by simp) ?_⟩
  · rintro callback ⟨last, waiting, type, mem, waits⟩
    exact ⟨last, waiting, type,
      List.mem_cons_of_mem _ ((List.mem_cons.mp mem).resolve_left (by rintro ⟨⟩)), waits⟩
  · intro id' type' mailbox' own' fits due
    cases own.symm.trans own'
    obtain ⟨box, there, shut⟩ := fits
    have there' : (heap.updateMailbox mailbox posted).mailboxes[mailbox.index]? =
          some (posted box) := by
      rw [heap.getElem?_updateMailbox, if_pos rfl, there]
      rfl
    have slot : (heap.updateMailbox mailbox posted).slot mailbox =
          some (exit.recover type).erase := by
      rw [Heap.slot, there']
    exact ⟨⟨_, there', shut⟩, .filled List.mem_cons_self ended slot⟩

/-- The mailbox of the caller is opened. -/
theorem Crewed.opens {mailbox : MailboxId} {last : Exit Erased}
    (h : Crewed inline crew answer heap batches.toList
      (.opening mailbox :: .notifying last observers :: under))
    (below : Segment inline crew answer heap (.notifying last observers :: under)) :
    Carries inline crew answer thread fun base => advance heap
      (drainer thread batches (.notifying last observers :: under ++ base))
      (.opening mailbox) := by
  let opened (box : Mailbox) : Mailbox := { box with latch := box.latch.countDown }
  refine ⟨heap.updateMailbox mailbox opened, batches, .notifying last observers :: under,
    fun _ => rfl, h.shifts _ below ?_ (fun id focus stack => by simp) ?_⟩
  · rintro callback ⟨last, waiting, type, mem, waits⟩
    exact ⟨last, waiting, type, (List.mem_cons.mp mem).resolve_left (by rintro ⟨⟩), waits⟩
  · intro id type mailbox' _ fits due
    have still {activation : Activation σ} (other : activation ≠ .opening mailbox)
        (mem : activation ∈ .opening mailbox :: .notifying last observers :: under) :
        activation ∈ .notifying last observers :: under :=
      (List.mem_cons.mp mem).resolve_left other
    by_cases same : mailbox = mailbox'
    -- One count was left at most, so the latch is open now and shows what is in the slot.
    · subst same
      obtain ⟨box, there, shut⟩ := fits
      have there' : (heap.updateMailbox mailbox opened).mailboxes[mailbox.index]? =
            some (opened box) := by
        rw [heap.getElem?_updateMailbox, if_pos rfl, there]
        rfl
      have slot : (heap.updateMailbox mailbox opened).slot mailbox = heap.slot mailbox := by
        rw [Heap.slot, Heap.slot, there', there]
      have shown : (heap.updateMailbox mailbox opened).isOpen mailbox = true := by
        rw [Heap.isOpen, there']
        exact (Latch.isOpen_countDown _).mpr shut
      refine ⟨⟨_, there', (Nat.sub_le _ _).trans shut⟩, ?_⟩
      cases due with
      | awaited waits => exact .awaited waits
      | told mem waits => exact .told (still (by rintro ⟨⟩) mem) waits
      | posted mem => exact .posted (still (by rintro ⟨⟩) mem)
      | filled _ ended kept => exact .given shown ended (slot.trans kept)
      | given _ ended kept => exact .given shown ended (slot.trans kept)
    · have kept : (heap.updateMailbox mailbox opened).mailboxes[mailbox'.index]? =
            heap.mailboxes[mailbox'.index]? := by
        rw [heap.getElem?_updateMailbox, if_neg same]
      have other : Activation.opening (σ := σ) mailbox' ≠ .opening mailbox := fun opens =>
        same (Activation.opening.inj opens).symm
      refine ⟨fits.congr kept, due.mono (fun waits => .awaited waits) (fun last waiting mem => ?_)
        (fun last mem => ?_) (still other) (fun _ ended => ended) kept⟩
      · exact .told (still (by rintro ⟨⟩) mem)
      · exact still (by rintro ⟨⟩) mem

/-- Whatever a crew does next, its thread goes on running it, and only a fork changes the crew. -/
theorem Crewed.duty (h : Crewed inline crew answer heap batches.toList segment) (thread : Thread σ)
    (running : ∀ id focus stack, segment.head? = some (.loop id focus stack) → heap.poll id = none)
    (unparked : ∀ callback stack, heap.suspension? callback ≠ some ⟨heap.nextFiber, .parked stack⟩)
    (busy : segment ≠ [] ∨ batches.toList ≠ []) :
    ∃ heap' queue' segment', (∀ outer base,
        step heap (drainer thread batches (segment ++ .draining outer :: base)) =
          (heap', drainer thread queue' (segment' ++ .draining outer :: base))) ∧
      Crewed inline (crewAfter crew heap segment.head?) answer heap' queue'.toList segment' := by
  have works {crew' : List FiberId} {activation : Activation σ} (rest : List (Activation σ))
      (carries : Carries inline crew' answer thread fun base =>
        advance heap (drainer thread batches (rest ++ base)) activation) :
      ∃ heap' queue' segment', (∀ outer base,
          step heap (drainer thread batches ((activation :: rest) ++ .draining outer :: base)) =
            (heap', drainer thread queue' (segment' ++ .draining outer :: base))) ∧
        Crewed inline crew' answer heap' queue'.toList segment' := by
    obtain ⟨heap', queue', segment', carries, crewed⟩ := carries
    exact ⟨heap', queue', segment', fun outer base => carries _, crewed⟩
  cases h.work with
  | idle =>
    -- The drain begins the next batch.
    cases popped : batches.popFront? with
    | none => exact absurd ((batches.popFront?_eq_none_iff).mp popped) (busy.resolve_left nofun)
    | some found =>
      obtain ⟨batch, rest⟩ := found
      have waiting := Queue.toList_of_popFront? popped
      obtain ⟨own, current, frames⟩ := h.queued batch (waiting ▸ List.mem_cons_self)
      refine ⟨heap, rest, [.loop batch.fiber (.node batch.current) batch.stack],
        fun outer base => ?_, h.moved ?_ (.loop own (.node current) frames) ?_ ?_ ?_ ?_⟩
      · simp only [step, drainer, List.nil_append, advance, Option.bind_some, popped]
        rfl
      · exact fun other mem => h.queued other (waiting ▸ List.mem_cons_of_mem _ mem)
      · rintro callback ⟨_, _, _, mem, _⟩
        cases mem
      · intro id callback code stack mem
        cases List.mem_singleton.mp mem
      · rintro id (⟨other, mem, same⟩ | ⟨_, _, mem⟩)
        · rw [waiting] at mem
          rcases List.mem_cons.mp mem with rfl | mem
          · exact same ▸ .looping List.mem_cons_self
          · exact .queued mem same
        · cases mem
      · intro id type mailbox _ due
        cases due with
        | awaited waits => exact .awaited waits
        | told mem | posted mem | filled mem => cases mem
        | given shown ended slot => exact .given shown ended slot
  | @loop id focus stack mem confined frames =>
    refine works [] ?_
    have going : heap.poll id = none := running id focus stack rfl
    cases confined with
    | node confined => exact h.nodes unparked confined
    | value within => exact h.values going within
    | cause cause => exact h.causes going
    | thunk code => exact h.codes (.inl ⟨_, rfl⟩) (.thunk code)
    | raising code => exact h.codes (.inr (.inl ⟨_, rfl⟩)) (.raising code)
    | building code => exact h.codes (.inr (.inr ⟨_, rfl⟩)) (.building code)
  | registering => exact works [] h.registrations
  | notifying => exact works _ h.announces
  | posting mem own ended below => exact works _ (h.posts own ended below)
  | opening below => exact works _ (h.opens below)

end Fibers
