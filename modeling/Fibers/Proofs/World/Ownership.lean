import Fibers.Proofs.World.Trial

/-!
# Who may continue a fiber

A fiber is continued by its untaken seed, a batch queued on a thread, a batch in a waiting task, a
loop, or the frames left with a suspension. There is never more than one of these, and none for a
fiber that has ended.

## Main results

`World.owned_of_reachable` is the invariant of all machines, `World.scene_moves_of_step` what one
step does to all fibers, and `World.single_owner` what follows for those that use fibers: they have
one owner at most, end once, and stay ended.

## Proof strategy

A step either hands work around, which never makes a second place, or advances the one loop that is
innermost on a thread; the invariant says that the fiber of that loop is nowhere else.
-/

namespace Fibers

variable {σ : Type}

open Machine (scene held)

/-! ### One step, in view of all threads -/

theorem World.places_le_of_mem {world : World σ} {thread : Thread σ} (mem : thread ∈ world.threads)
    (id : FiberId) : thread.places id ≤ world.places id := by
  have here : thread.places id ≤ (world.threads.map fun thread => thread.places id).sum :=
    List.le_sum_of_mem (List.mem_map_of_mem mem)
  exact here.trans (Multiset.le_add_left _ _)

/-- All threads in view. -/
def World.scene (world : World σ) : Scene σ where
  heap := world.heap
  places := world.places
  underWay activation := ∃ thread ∈ world.threads, activation ∈ thread.control
  covered activation := ∃ thread ∈ world.threads, activation ∈ thread.covered
  underWay_of_covered _ := fun ⟨thread, known, mem⟩ =>
    ⟨thread, known, Thread.mem_control_of_covered mem⟩
  within _ := fun ⟨_, known, mem⟩ id =>
    (Activation.places_le mem id).trans (world.places_le_of_mem known id)

/-- A machine is one of its threads, with the others in view. -/
theorem World.scene_of_threads {world : World σ} {before after : List (Thread σ)}
    {thread : Thread σ} (threads : world.threads = before ++ thread :: after) :
    world.scene = (Machine.scene world.heap thread).add (before ++ after) := by
  refine Scene.ext rfl (funext fun id => ?_) (funext fun activation => ?_)
    (funext fun activation => ?_)
  · simp only [World.scene, Scene.add, World.places, threads, held, List.map_append, List.map_cons,
      List.sum_append, List.sum_cons]
    abel
  all_goals
    simp only [World.scene, Scene.add, threads, List.mem_append, List.mem_cons, or_and_right,
      exists_or, exists_eq_left]
    exact propext or_left_comm

/-- What a step does to all fibers: it is the turn of nobody, or of the fiber of a loop. -/
inductive Scene.Moves (before after : Scene σ) : Prop where
  | idle (turn : Turn (fun _ => False) before after)
  | acted {id : FiberId} {focus : Focus σ} {stack : List (Frame σ)} {fiber : FiberState σ}
      {rest : Scene σ} (heap : rest.heap = before.heap)
      (places : ∀ other, before.places other =
        (Activation.loop id focus stack).places other + rest.places other)
      (underWay : ∀ activation, rest.underWay activation → before.underWay activation)
      (covered : ∀ activation id, rest.covered activation → activation.Runs id →
        before.covered activation)
      (nowhere : rest.places id = 0) (state : rest.heap.fiber? id = some fiber)
      (turn : Turn (· = id) rest after)
      (acts : ∀ calling, (before.covered (.loop id focus stack) → calling = true) →
        Acts id ⟨.active focus stack, fiber.holding, calling⟩ after)

/-- Every fiber has at most one place, and none before it is made and after it has ended. -/
structure Scene.Owned (scene : Scene σ) : Prop where
  single : ∀ id, (scene.places id).card ≤ 1
  known : ∀ id, ¬scene.heap.Knows id → scene.places id = 0
  ended : ∀ id fiber exit, scene.heap.fiber? id = some fiber → fiber.exit? = some exit →
    scene.places id = 0
  meeting : ∀ activation, scene.underWay activation → activation.Meets scene.heap

/-- A fiber that stands somewhere is known and has not ended. -/
theorem Scene.Owned.there {scene : Scene σ} (owned : scene.Owned) {id : FiberId}
    (somewhere : scene.places id ≠ 0) : scene.heap.Knows id ∧ scene.heap.poll id = none := by
  constructor
  · by_contra unknown
    exact somewhere (owned.known id unknown)
  · refine Option.eq_none_iff_forall_ne_some.mpr fun exit ended => ?_
    obtain ⟨fiber, present, done⟩ := Heap.poll_eq_some_iff.mp ended
    exact somewhere (owned.ended id fiber exit present done)

theorem Scene.Owned.placed {scene : Scene σ} (owned : scene.Owned) {id : FiberId} {place : Place σ}
    (there : scene.places id = {place}) : scene.heap.Knows id ∧ scene.heap.poll id = none :=
  owned.there (there.trans_ne (Multiset.singleton_ne_zero _))

theorem Handed.card_le {before after : Multiset (Place σ)} (h : Handed before after) :
    after.card ≤ before.card := by
  cases h with
  | fewer le => exact Multiset.card_le_card le
  | resumed => simp

/-- The invariant survives a turn, if it survives what the acting fibers do. -/
theorem Scene.Owned.turn {acts : FiberId → Prop} {before after : Scene σ} (owned : before.Owned)
    (turn : Turn acts before after)
    (nowhere : ∀ id, acts id → before.places id = 0)
    (single : ∀ id, acts id → (after.places id).card ≤ 1)
    (ended : ∀ id fiber exit, acts id → after.heap.fiber? id = some fiber →
      fiber.exit? = some exit → after.places id = 0) : after.Owned where
  single id := by
    by_cases known : before.heap.Knows id
    · by_cases act : acts id
      · exact single id act
      · exact (turn.known id known act).card_le.trans (owned.single id)
    · exact (turn.unknown id known (owned.known id known)).1
  known id unknown := by
    have old : ¬before.heap.Knows id := fun known => unknown (turn.knows id known)
    exact (turn.unknown id old (owned.known id old)).2 unknown
  ended id fiber exit present done := by
    by_cases act : acts id
    · exact ended id fiber exit act present done
    by_cases known : before.heap.Knows id
    · obtain ⟨old, was⟩ := known.exists_fiber
      obtain ⟨fiber', present', kept⟩ := turn.fibers id old known act was
      cases present.symm.trans present'
      have none := owned.ended id old exit was (kept.exit.symm.trans done)
      exact (turn.known id known act).eq_zero none
    by_cases known' : after.heap.Knows id
    · have running := turn.newcomers id fiber known known' present
      cases running.symm.trans done
    · exact (turn.unknown id known (owned.known id known)).2 known'
  meeting activation mem := by
    rcases turn.control activation mem with old | new
    · have meets := owned.meeting activation old
      unfold Activation.Meets at meets ⊢
      split at meets
      next fiber callback code stack =>
        obtain ⟨suspension, present, own, meeting⟩ := meets
        obtain ⟨suspension', present', same, kept⟩ := turn.suspensions callback suspension present
        -- The loop of an acting fiber has been taken off, so this one is of another fiber.
        have idle : ¬acts suspension.fiber := fun act => by
          have le := before.within _ old fiber
          rw [← own, nowhere _ act, own, Activation.places, if_pos rfl] at le
          exact Multiset.singleton_ne_zero _ (Multiset.le_zero.mp le)
        exact ⟨suspension', present', same.trans own, (kept idle).meeting meeting⟩
      next => trivial
    · exact new

theorem Scene.Owned.moves {before after : Scene σ} (owned : before.Owned)
    (moves : before.Moves after) : after.Owned := by
  cases moves with
  | idle turn =>
    exact owned.turn turn (fun _ => False.elim) (fun _ => False.elim) fun _ _ _ => False.elim
  | @acted id focus stack fiber rest heap places underWay covered nowhere state turn acts =>
    have acts := acts true fun _ => rfl
    have le : ∀ other, rest.places other ≤ before.places other := fun other =>
      places other ▸ Multiset.le_add_left _ _
    have left : rest.Owned :=
      ⟨fun other => (Multiset.card_le_card (le other)).trans (owned.single other),
        fun other unknown => Multiset.le_zero.mp (owned.known other (heap ▸ unknown) ▸ le other),
        fun other fiber exit present ended => Multiset.le_zero.mp
          (owned.ended other fiber exit (heap ▸ present) ended ▸ le other),
        fun activation mem => heap ▸ owned.meeting activation (underWay activation mem)⟩
    refine left.turn turn ?_ ?_ ?_
    · rintro _ rfl
      exact nowhere
    · rintro _ rfl
      cases acts with
      | moved strand fiber place => rw [place, Multiset.card_singleton]
      | lost fiber nowhere => rw [nowhere]; exact Nat.zero_le 1
      | completed fiber exit nowhere => rw [nowhere]; exact Nat.zero_le 1
    · rintro _ fiber exit rfl present ended
      cases acts with
      | moved strand fiber' place state running =>
        cases present.symm.trans state
        cases running.symm.trans ended
      | lost fiber' nowhere => exact nowhere
      | completed fiber' exit nowhere => exact nowhere

/-! ### Every step of a machine -/

namespace World

/-- Work that is handed to an idle thread is a turn of nobody. -/
theorem scene_moves_of_handover {world world' : World σ} {thread thread' : Thread σ}
    (threads : Replaces world world' thread thread') (idle : thread.control = [])
    (calm : thread.panicking = none)
    (handed : Machine.Handover world.heap thread world'.heap thread') :
    world.scene.Moves world'.scene := by
  obtain ⟨before, after, was, is⟩ := threads
  have turn := Turn.of_handover handed calm fun _ => False
  have same : Machine.taken world.heap thread = Machine.scene world.heap thread := by
    refine Scene.ext rfl rfl rfl (funext fun activation => ?_)
    dsimp only
    rw [Thread.covered_of_idle idle]
  rw [scene_of_threads was, scene_of_threads is, ← same]
  exact .idle (turn.add _)

/-- A change of the heap that only takes places away is a turn of nobody. -/
theorem scene_moves_of_heap {world world' : World σ} (quiet : world.heap.Quiet world'.heap)
    (le : ∀ id, world'.heap.places id ≤ world.heap.places id)
    (threads : world'.threads = world.threads) : world.scene.Moves world'.scene := by
  refine .idle (.of_le quiet (fun id => ?_) (fun activation => ?_) fun activation id => ?_)
  · simp only [scene, places, threads]
    exact add_le_add_left (le id) _
  · simp only [scene, threads]
    exact .inl
  · simp only [scene, threads]
    exact fun mem _ => mem

theorem sum_places_of_programs (codes : List (Code σ Unit)) (id : FiberId) :
    ((codes.map Activation.program).map (Activation.places id)).sum = 0 :=
  List.sum_eq_zero fun places mem => by
    simp only [List.map_map, List.mem_map] at mem
    obtain ⟨code, _, rfl⟩ := mem
    rfl

theorem meets_of_programs {thread : Thread σ} {codes : List (Code σ Unit)}
    (control : thread.control = codes.map .program) (heap : Heap σ) :
    ∀ activation ∈ thread.control, activation.Meets heap := by
  intro activation mem
  rw [control] at mem
  obtain ⟨code, _, rfl⟩ := List.mem_map.mp mem
  trivial

/-- What is in view when an activation has been taken off its thread. -/
theorem scene_of_taken {world : World σ} {before after : List (Thread σ)} {thread : Thread σ}
    (threads : world.threads = before ++ thread :: after) {activation : Activation σ}
    {rest : List (Activation σ)} (control : thread.control = activation :: rest) :
    ∃ left : Scene σ, left = (Machine.taken world.heap { thread with control := rest }).add
        (before ++ after) ∧ left.heap = world.heap ∧
      (∀ id, world.scene.places id = activation.places id + left.places id) ∧
      (∀ other, left.underWay other → world.scene.underWay other) ∧
      ∀ other, left.covered other → world.scene.covered other := by
  have others : ∀ holder ∈ before ++ after, holder ∈ world.threads := by
    intro holder known
    rw [threads]
    rcases List.mem_append.mp known with known | known
    · exact List.mem_append_left _ known
    · exact List.mem_append_right _ (List.mem_cons_of_mem _ known)
  have own : thread ∈ world.threads := threads ▸ List.mem_append_right _ List.mem_cons_self
  refine ⟨_, rfl, rfl, fun id => ?_, ?_, ?_⟩
  · rw [scene_of_threads threads]
    simp only [Scene.add, held, Thread.places_of_control control]
    abel
  · rintro other (mem | ⟨holder, known, mem⟩)
    · exact ⟨thread, own, control ▸ List.mem_cons_of_mem _ mem⟩
    · exact ⟨holder, others holder known, mem⟩
  · rintro other (mem | ⟨holder, known, mem⟩)
    · exact ⟨thread, own, Thread.mem_covered_of_control control mem⟩
    · exact ⟨holder, others holder known, mem⟩

/-- The loop that is innermost on a thread is the only place of its fiber. -/
theorem scene_moves_of_loop {world world' : World σ} (owned : world.scene.Owned)
    {thread : Thread σ} {id : FiberId} {focus : Focus σ} {stack : List (Frame σ)}
    {rest : List (Activation σ)} (control : thread.control = .loop id focus stack :: rest)
    (heap : world'.heap = (Machine.step world.heap thread).1)
    (threads : Replaces world world' thread (Machine.step world.heap thread).2) :
    world.scene.Moves world'.scene := by
  obtain ⟨before, after, was, is⟩ := threads
  obtain ⟨left, taken, same, whole, underWay, covered⟩ := scene_of_taken was control
  have known : thread ∈ world.threads := was ▸ List.mem_append_right _ List.mem_cons_self
  have mem : Activation.loop id focus stack ∈ thread.control := control ▸ List.mem_cons_self
  have own : (Activation.loop id focus stack).places id = {.active focus stack} := if_pos rfl
  -- The fiber has one place at most, and this loop is one.
  have nowhere : left.places id = 0 := by
    have card := owned.single id
    rw [whole, own, Multiset.card_add, Multiset.card_singleton] at card
    exact Multiset.card_eq_zero.mp (by omega)
  have somewhere : world.scene.places id ≠ 0 := by
    rw [whole, own, nowhere]
    exact Multiset.singleton_ne_zero _
  have knows : world.heap.Knows id := (owned.there somewhere).1
  have open' : world.heap.poll id = none := (owned.there somewhere).2
  obtain ⟨fiber, state⟩ := knows.exists_fiber
  have running : fiber.exit? = none := (Heap.poll_of_fiber? state).symm.trans open'
  have inThread : held world.heap { thread with control := rest, panicking := none } id = 0 ∧
      ((before ++ after).map fun thread => thread.places id).sum = 0 := by
    rw [taken] at nowhere
    exact add_eq_zero.mp nowhere
  have meets := owned.meeting _ ⟨thread, known, mem⟩
  -- The loop advances alone. A panic reaches it only while it is covered.
  have advances : ∀ calling, (world.scene.covered (.loop id focus stack) → calling = true) →
      Machine.Advances id ⟨.active focus stack, fiber.holding, calling⟩ world.heap
        { thread with control := rest } (Machine.step world.heap thread) := by
    intro calling exposed
    refine Machine.advances_step control ⟨knows, state, running, inThread.1, rfl⟩ meets
      fun raised => ?_
    refine exposed ⟨thread, known, ?_⟩
    rw [Thread.covered, if_pos (Option.isSome_iff_ne_none.mpr raised)]
    exact mem
  have is : world'.scene = (Machine.scene (Machine.step world.heap thread).1
      (Machine.step world.heap thread).2).add (before ++ after) := by
    rw [scene_of_threads is, heap]
  refine .acted same whole underWay (fun other _ mem _ => covered other mem) nowhere
    (same ▸ state) ?_ fun calling exposed => ?_
  · rw [is, taken]
    exact (advances true fun _ => rfl).turn.add _
  · rw [is]
    exact (advances calling exposed).acts.add inThread.2

theorem scene_moves_of_step {world world' : World σ} (owned : world.scene.Owned)
    (step : world.Step world') : world.scene.Moves world'.scene := by
  cases step with
  | @act thread heap threads =>
    -- Only a loop can act on a fiber; any other activation just hands work around.
    by_cases looped : ∃ id focus stack rest, thread.control = .loop id focus stack :: rest
    · obtain ⟨id, focus, stack, rest, control⟩ := looped
      exact scene_moves_of_loop owned control heap threads
    · obtain ⟨before, after, was, is⟩ := threads
      have turn := Machine.turn_step world.heap
        (fun id focus stack rest control => looped ⟨id, focus, stack, rest, control⟩)
        (fun _ => False)
      rw [scene_of_threads was, scene_of_threads is, heap]
      exact .idle (turn.add _)
  | take idle calm waiting left heap threads =>
    refine scene_moves_of_handover threads idle calm ?_
    rw [heap]
    exact Machine.handover_runTask _ waiting left
  | drop left heap threads =>
    refine scene_moves_of_heap ?_ (fun id => ?_) threads
    · rw [heap]
      exact Heap.quiet_of_tables rfl rfl
    · rw [heap]
      exact world.heap.places_setWaiting_le left id
  | @begin thread idle codes heap threads =>
    obtain ⟨before, after, was, is⟩ := threads
    -- New programs are nobody's loops, and an idle thread had none either.
    have turn : Turn (fun _ => False) (Machine.scene world.heap thread)
        (Machine.scene world'.heap
          { thread with control := codes.map .program, panicking := none }) := by
      refine Machine.turn_of_le _ (heap ▸ .refl _) (fun id => le_of_eq ?_)
        (fun activation mem => .inr (meets_of_programs rfl _ activation mem))
        fun activation mem id runs => ?_
      · simp only [Thread.places, idle, List.map_nil, List.sum_nil, sum_places_of_programs]
      · obtain ⟨code, _, rfl⟩ := List.mem_map.mp (Thread.mem_control_of_covered mem)
        cases runs
    rw [scene_of_threads was, scene_of_threads is]
    exact .idle (turn.add _)
  | @spawn thread fresh codes control heap threads =>
    -- A new thread brings programs only, so no fiber is in two places.
    have none : thread.places = fun _ => 0 := by
      funext id
      rw [Thread.places, fresh, control, sum_places_of_programs]
      rfl
    refine .idle (.of_le ?_ (fun id => le_of_eq ?_) ?_ ?_)
    · rw [scene, scene, heap]
      exact (Heap.Kept.refl _).toQuiet
    · simp only [scene, places, heap, threads, List.map_append, List.map_cons, List.map_nil,
        List.sum_append, List.sum_cons, List.sum_nil, none, add_zero]
    · rintro activation ⟨other, known, mem⟩
      rw [threads, List.mem_append, List.mem_singleton] at known
      rcases known with known | rfl
      · exact .inl ⟨other, known, mem⟩
      · exact .inr (meets_of_programs control _ activation mem)
    · rintro activation id ⟨other, known, mem⟩ runs
      rw [threads, List.mem_append, List.mem_singleton] at known
      rcases known with known | rfl
      · exact ⟨other, known, mem⟩
      · have mem := control ▸ Thread.mem_control_of_covered mem
        obtain ⟨code, _, rfl⟩ := List.mem_map.mp mem
        cases runs
  | @engage executor empty heap threads =>
    refine scene_moves_of_heap ?_ (fun id => le_of_eq ?_) threads
    · rw [heap]
      exact Heap.quiet_of_tables rfl rfl
    · simp [heap, Heap.places, Executor.places, empty]
  | outside fibers executors suspensions threads =>
    have kept := Heap.kept_of_tables fibers executors suspensions
    exact scene_moves_of_heap kept.toQuiet (fun id => (kept.places id).le) threads

/-! ### Every machine -/

theorem owned_of_fresh {world : World σ} (fresh : world.Fresh) : world.scene.Owned := by
  have none : ∀ id, world.places id = 0 := by
    intro id
    have idle : (world.threads.map fun thread => thread.places id).sum = 0 :=
      List.sum_eq_zero fun places mem => by
        obtain ⟨thread, known, rfl⟩ := List.mem_map.mp mem
        obtain ⟨pending, control⟩ := fresh.threads thread known
        rw [Thread.places, pending, control]
        rfl
    have empty : tally (fun _ => Executor.places id) world.heap.executors = 0 :=
      tally_eq_zero _ _ fun index executor present => by
        have waiting := fresh.executors executor (Array.mem_of_getElem? present)
        simp [Executor.places, waiting]
    rw [places, idle, Heap.places, fresh.fibers, fresh.suspensions, empty]
    rfl
  refine ⟨fun id => ?_, fun id _ => none id, fun id _ _ _ _ => none id, ?_⟩
  · simp only [scene, none, Multiset.card_zero, Nat.zero_le]
  · rintro activation ⟨thread, known, mem⟩
    rw [(fresh.threads thread known).2] at mem
    cases mem

theorem owned_of_steps {world world' : World σ} (owned : world.scene.Owned)
    (steps : world.Steps world') : world'.scene.Owned := by
  induction steps with
  | refl => exact owned
  | tail _ step ih => exact ih.moves (scene_moves_of_step ih step)

/-- The invariant of all machines. -/
theorem owned_of_reachable {world : World σ} (reached : world.Reachable) : world.scene.Owned := by
  obtain ⟨origin, fresh, steps⟩ := reached
  exact owned_of_steps (owned_of_fresh fresh) steps

end World

theorem Heap.knows_ofIndex {heap : Heap σ} {id : FiberId} {fiber : FiberState σ}
    (present : heap.fiber? id = some fiber) : heap.Knows (.ofIndex id.index) :=
  ⟨id.index, Heap.lt_size_of_fiber? present, rfl⟩

/-- The exit of a fiber is its last word. -/
theorem Scene.Owned.exit_kept {before after : Scene σ} (owned : before.Owned)
    (moves : before.Moves after) {id : FiberId} {exit : Exit Erased}
    (ended : before.heap.poll id = some exit) : after.heap.poll id = some exit := by
  obtain ⟨fiber, present, ended⟩ := Heap.poll_eq_some_iff.mp ended
  have knows := Heap.knows_ofIndex present
  have kept : ∀ fiber', after.heap.fiber? id = some fiber' → fiber.Kept fiber' →
      after.heap.poll id = some exit := fun fiber' present' kept =>
    Heap.poll_eq_some_iff.mpr ⟨fiber', present', kept.exit.trans ended⟩
  cases moves with
  | idle turn =>
    obtain ⟨fiber', present', same⟩ := turn.fibers (.ofIndex id.index) fiber knows not_false present
    exact kept fiber' present' same
  | @acted actor focus stack _ rest heap places _ _ _ _ turn _ =>
    have other : FiberId.ofIndex id.index ≠ actor := by
      rintro rfl
      have nowhere := owned.ended (.ofIndex id.index) fiber exit present ended
      rw [places, Activation.places, if_pos rfl] at nowhere
      exact Multiset.singleton_ne_zero _ (add_eq_zero.mp nowhere).1
    rw [← heap] at knows present
    obtain ⟨fiber', present', same⟩ := turn.fibers (.ofIndex id.index) fiber knows other present
    exact kept fiber' present' same

namespace World

theorem poll_of_steps {world later : World σ} (owned : world.scene.Owned)
    (steps : world.Steps later) {id : FiberId} {exit : Exit Erased}
    (ended : world.heap.poll id = some exit) : later.heap.poll id = some exit := by
  induction steps with
  | refl => exact ended
  | tail before step ih =>
    have owned := owned_of_steps owned before
    exact owned.exit_kept (scene_moves_of_step owned step) ih

/-- A loop that is under way is a place of its fiber. -/
theorem places_ne_zero_of_loop {world : World σ} {thread : Thread σ}
    (known : thread ∈ world.threads)
    {id : FiberId} {focus : Focus σ} {stack : List (Frame σ)}
    (mem : Activation.loop id focus stack ∈ thread.control) :
    world.places id ≠ 0 := by
  intro nowhere
  have le := (Activation.places_le mem id).trans (world.places_le_of_mem known id)
  rw [Activation.places, if_pos rfl, nowhere] at le
  exact Multiset.singleton_ne_zero _ (Multiset.le_zero.mp le)

/-- A fiber has one owner at most, whatever the order of steps. Once it has ended, nobody owns it,
no loop runs it again, and its exit stays; so a loop never ends a fiber that has ended, and the
panic for that is out of reach. -/
theorem single_owner {world : World σ} (reached : world.Reachable) (id : FiberId) :
    (world.places id).card ≤ 1 ∧
      (∀ exit, world.heap.poll id = some exit → ∀ later, world.Steps later →
        later.heap.poll id = some exit ∧ later.places id = 0 ∧
          ∀ thread ∈ later.threads, ∀ focus stack,
            Activation.loop id focus stack ∉ thread.control) ∧
      ∀ thread ∈ world.threads, ∀ focus stack, Activation.loop id focus stack ∈ thread.control →
        world.heap.poll id = none ∧ ∀ (thread : Thread σ) exit,
          (Machine.completeFiber world.heap thread id exit).2.panicking = thread.panicking := by
  have owned := owned_of_reachable reached
  refine ⟨owned.single id, fun exit ended later steps => ?_, fun thread known focus stack mem => ?_⟩
  · have ended := poll_of_steps owned steps ended
    obtain ⟨fiber, present, done⟩ := Heap.poll_eq_some_iff.mp ended
    have nowhere := (owned_of_steps owned steps).ended id fiber exit present done
    exact ⟨ended, nowhere, fun thread known focus stack mem =>
      places_ne_zero_of_loop known mem nowhere⟩
  · have somewhere := places_ne_zero_of_loop known mem
    have knows : world.heap.Knows id := by
      by_contra unknown
      exact somewhere (owned.known id unknown)
    obtain ⟨⟨progress, flags, environments, executor, seed⟩, present⟩ := knows.exists_fiber
    cases progress with
    | done exit =>
      exact absurd (owned.ended id _ exit present rfl) somewhere
    | running observers =>
      refine ⟨by simp [Heap.poll, present], fun thread exit => ?_⟩
      rw [Machine.completeFiber, present]
      rfl

/-- A fiber that has ended in a trial stays ended, whatever the machine is used for afterwards. -/
theorem single_owner_trial :
    (trial () (launched Effect.unit) 3).heap.poll ⟨1⟩ = some (.success .unit) ∧
      ∀ later, (trial () (launched Effect.unit) 3).Steps later →
        later.heap.poll ⟨1⟩ = some (.success .unit) ∧ later.places ⟨1⟩ = 0 := by
  have ended : (trial () (launched Effect.unit) 3).heap.poll ⟨1⟩ = some (.success .unit) := rfl
  have reached := (run_trial () (launched Effect.unit)).reachable 3
  refine ⟨ended, fun later steps => ?_⟩
  obtain ⟨still, nowhere, -⟩ := (single_owner reached ⟨1⟩).2.1 _ ended later steps
  exact ⟨still, nowhere⟩

end World

end Fibers
