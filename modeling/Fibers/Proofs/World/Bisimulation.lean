import Fibers.Proofs.Machine.Rejoin
import Fibers.Proofs.World.Happening
import Fibers.Proofs.World.Ownership
import Fibers.Proofs.World.Replay

/-!
# Machines that cannot be told apart

Two machines agree about everything but where one fiber stands: the shared world, all other fibers
and what the heap keeps for this one, who waits for what, which tasks wait where, and what the
threads have under way. If they agree now, and whatever happens to one of them happens to the other
as well so that they agree again, nobody can tell which of them is there. The fiber may need more
steps in one of them, as long as these change nothing on which the two agree.

## Main results

`World.bisimulation_of_near`: machines whose threads are near each other cannot be told apart.
`World.Indistinguishable.continues` follows a whole run of one of them with a run of the other, and
`World.Indistinguishable.ends_iff` says that the fiber ends in both with the same exits, or in none.

## Proof strategy

What happens on no thread happens to both machines (`World.Near.follow`). What one thread does is
for `Machine.near_step`: the thread near it does the same after some steps, or waits.
-/

namespace Fibers

variable {σ : Type}

/-! ### Lists that correspond -/

theorem exists_split_of_forall₂ {α β : Type} {r : α → β → Prop} {before after : List α} {item : α}
    {items' : List β} (h : List.Forall₂ r (before ++ item :: after) items') :
    ∃ before' item' after', items' = before' ++ item' :: after' ∧
      List.Forall₂ r before before' ∧ r item item' ∧ List.Forall₂ r after after' := by
  induction before generalizing items' with
  | nil =>
    obtain ⟨item', after', same, others, rfl⟩ := List.forall₂_cons_left_iff.mp h
    exact ⟨[], item', after', rfl, .nil, same, others⟩
  | cons first before ih =>
    obtain ⟨first', rest', same, others, rfl⟩ := List.forall₂_cons_left_iff.mp h
    obtain ⟨before', item', after', rfl, firsts, here, lasts⟩ := ih others
    exact ⟨first' :: before', item', after', rfl, .cons same firsts, here, lasts⟩

theorem exists_sublist_of_forall₂ {α β : Type} {r : α → β → Prop} {kept items : List α}
    {items' : List β} (sublist : kept.Sublist items) (h : List.Forall₂ r items items') :
    ∃ kept' : List β, kept'.Sublist items' ∧ List.Forall₂ r kept kept' := by
  induction sublist generalizing items' with
  | slnil => exact ⟨[], List.nil_sublist _, .nil⟩
  | cons item _ ih =>
    obtain ⟨item', rest', _, others, rfl⟩ := List.forall₂_cons_left_iff.mp h
    obtain ⟨kept', sublist', same⟩ := ih others
    exact ⟨kept', sublist'.cons item', same⟩
  | cons_cons item _ ih =>
    obtain ⟨item', rest', here, others, rfl⟩ := List.forall₂_cons_left_iff.mp h
    obtain ⟨kept', sublist', same⟩ := ih others
    exact ⟨item' :: kept', sublist'.cons_cons item', .cons here same⟩

/-! ### Agreement -/

/-- All places of one fiber stand for each other; everybody else stays where it is. -/
def Matching.anywhere (id : FiberId) : Matching σ :=
  fun fiber place place' => fiber = id ∨ place' = place

theorem Matching.Only.le_anywhere {twins : Matching σ} {id : FiberId} (only : twins.Only id)
    (fiber : FiberId) (place place' : Place σ) (same : twins fiber place place') :
    Matching.anywhere id fiber place place' := by
  by_cases own : fiber = id
  · exact .inl own
  · exact .inr (only fiber place place' own same)

namespace World

/-- Two machines are the same but for where some fibers stand. -/
structure Twin (twins : Matching σ) (world world' : World σ) : Prop where
  heap : world.heap.Twin twins world'.heap
  threads : List.Forall₂ (Thread.Twin twins) world.threads world'.threads

/-- Anything may happen. -/
def Unrestricted (_ : Heap σ) (_ : Happening σ) : Prop := True

/-- Something happens to a machine that may happen to it, while a fiber is not interrupted. -/
structure Undisturbed (permits : Heap σ → Happening σ → Prop) (id : FiberId)
    (happening : Happening σ) (world next : World σ) : Prop where
  undue : world.heap.shouldInterrupt id = false
  permitted : permits world.heap happening
  happens : Happens world next happening

/-- Something happens to a machine, and before this as often as needed while the machine stays as it
should; or the machine is already as it should become. -/
inductive Answers (permits : Heap σ → Happening σ → Prop) (id : FiberId) (happening : Happening σ)
    (stays becomes : World σ → Prop) (world : World σ) : Prop where
  | already (there : becomes world)
  | after {middle next : World σ}
      (silent : Relation.ReflTransGen
        (fun before after => Undisturbed permits id happening before after ∧ stays after)
        world middle)
      (step : Undisturbed permits id happening middle next) (there : becomes next)

/-- Two machines are the same but for where one fiber stands, and stay so: what happens to one of
them happens to the other as well, once, and before this only what leaves them the same; or else it
leaves them the same. -/
structure Bisimulation (permits : Heap σ → Happening σ → Prop) (id : FiberId)
    (related : World σ → World σ → Prop) : Prop where
  agrees : ∀ {world world'}, related world world' → world.Twin (.anywhere id) world'
  forth : ∀ {world world' next happening}, related world world' →
    Undisturbed permits id happening world next →
    Answers permits id happening (related world) (related next) world'
  back : ∀ {world world' next' happening}, related world world' →
    Undisturbed permits id happening world' next' →
    Answers permits id happening (related · world') (related · next') world

/-- As long as a fiber is not interrupted, nobody can tell which of two machines is there. -/
def Indistinguishable (permits : Heap σ → Happening σ → Prop) (id : FiberId)
    (world world' : World σ) : Prop :=
  ∃ related, Bisimulation permits id related ∧ related world world'

variable {permits : Heap σ → Happening σ → Prop} {id : FiberId} {twins : Matching σ}
  {happening : Happening σ} {world world' next next' : World σ}

/-! ### Runs -/

theorem Twin.symm (h : world.Twin (.anywhere id) world') : world'.Twin (.anywhere id) world := by
  have le : ∀ fiber place place', (Matching.anywhere id : Matching σ).flip fiber place place' →
      Matching.anywhere id fiber place place' := fun _ _ _ same => same.imp_right Eq.symm
  exact ⟨h.heap.flip.mono le, forall₂_flip h.threads fun _ _ twin => twin.flip.mono le⟩

theorem Bisimulation.flip {related : World σ → World σ → Prop}
    (h : Bisimulation permits id related) :
    Bisimulation permits id fun world' world => related world world' :=
  ⟨fun here => (h.agrees here).symm, fun here => h.back here, fun here => h.forth here⟩

theorem Indistinguishable.symm (h : Indistinguishable permits id world world') :
    Indistinguishable permits id world' world := by
  obtain ⟨related, bisimulation, here⟩ := h
  exact ⟨_, bisimulation.flip, here⟩

/-- A machine goes on undisturbed. -/
def Continues (permits : Heap σ → Happening σ → Prop) (id : FiberId) : World σ → World σ → Prop :=
  Relation.ReflTransGen fun world next => ∃ happening, Undisturbed permits id happening world next

theorem Answers.continues {stays becomes : World σ → Prop}
    (h : Answers permits id happening stays becomes world) :
    ∃ next, Continues permits id world next ∧ becomes next := by
  cases h with
  | already there => exact ⟨world, .refl, there⟩
  | @after middle next silent step there =>
    have goes : Continues permits id world middle :=
      Relation.ReflTransGen.mono (fun _ _ step => ⟨happening, step.1⟩) _ _ silent
    exact ⟨next, goes.tail ⟨happening, step⟩, there⟩

theorem Answers.imp {stays stays' becomes becomes' : World σ → Prop}
    (h : Answers permits id happening stays becomes world)
    (stay : ∀ world, stays world → stays' world)
    (become : ∀ world, becomes world → becomes' world) :
    Answers permits id happening stays' becomes' world := by
  cases h with
  | already there => exact .already (become _ there)
  | after silent step there =>
    exact .after (Relation.ReflTransGen.mono (fun _ _ step => step.imp_right (stay _)) _ _ silent)
      step (become _ there)

/-- What lasts as a machine goes on lasts as it answers. -/
theorem Answers.lasting {stays becomes lasting : World σ → Prop}
    (h : Answers permits id happening stays becomes world) (good : lasting world)
    (lasts : ∀ {world next happening}, lasting world → permits world.heap happening →
      Happens world next happening → lasting next) :
    Answers permits id happening (fun world => lasting world ∧ stays world)
      (fun world => lasting world ∧ becomes world) world := by
  cases h with
  | already there => exact .already ⟨good, there⟩
  | @after middle next silent step there =>
    have all : lasting middle ∧ Relation.ReflTransGen (fun before after =>
        Undisturbed permits id happening before after ∧ lasting after ∧ stays after)
        world middle := by
      clear step
      induction silent with
      | refl => exact ⟨good, .refl⟩
      | tail _ step ih =>
        have good := lasts ih.1 step.1.permitted step.1.happens
        exact ⟨good, ih.2.tail ⟨step.1, good, step.2⟩⟩
    exact .after all.2 step ⟨lasts all.1 step.permitted step.happens, there⟩

/-- As one machine goes on, so does the other. -/
theorem Indistinguishable.continues (h : Indistinguishable permits id world world')
    (goes : Continues permits id world next) :
    ∃ next', Continues permits id world' next' ∧ next.Twin (.anywhere id) next' ∧
      Indistinguishable permits id next next' := by
  obtain ⟨related, bisimulation, here⟩ := h
  induction goes with
  | refl => exact ⟨world', .refl, bisimulation.agrees here, related, bisimulation, here⟩
  | tail _ step ih =>
    obtain ⟨middle, before, _, related, bisimulation, there⟩ := ih
    obtain ⟨happening, step⟩ := step
    obtain ⟨next', after, there⟩ := (bisimulation.forth there step).continues
    exact ⟨next', before.trans after, bisimulation.agrees there, related, bisimulation, there⟩

/-- A fiber ends in both machines with the same exits, or in neither. -/
theorem Indistinguishable.ends_iff (h : Indistinguishable permits id world world')
    (exit : Exit Erased) :
    (∃ next, Continues permits id world next ∧ next.heap.poll id = some exit) ↔
      ∃ next', Continues permits id world' next' ∧ next'.heap.poll id = some exit := by
  have follows {world world' : World σ} (h : Indistinguishable permits id world world')
      (ends : ∃ next, Continues permits id world next ∧ next.heap.poll id = some exit) :
      ∃ next', Continues permits id world' next' ∧ next'.heap.poll id = some exit := by
    obtain ⟨next, goes, ended⟩ := ends
    obtain ⟨next', goes', agrees, _⟩ := h.continues goes
    exact ⟨next', goes', (agrees.heap.poll_eq id).trans ended⟩
  exact ⟨follows h, follows h.symm⟩

/-! ### Whatever happens on no thread -/

/-- Machines whose threads are near each other. -/
structure Near (twins : Matching σ) (id : FiberId) (world world' : World σ) : Prop where
  heap : world.heap.Twin twins world'.heap
  threads : List.Forall₂ (Machine.Near twins id) world.threads world'.threads

theorem Twin.near (h : world.Twin twins world') : Near twins id world world' :=
  ⟨h.heap, h.threads.imp fun _ _ twin => .twin twin⟩

theorem Near.flip (h : Near twins id world world') : Near twins.flip id world' world :=
  ⟨h.heap.flip, forall₂_flip h.threads fun _ _ near => near.flip⟩

/-- One thread and the heap may become anything. -/
theorem exists_replacesAt {before after : List (Thread σ)} {thread : Thread σ}
    (threads : world.threads = before ++ thread :: after) (heap : Heap σ) (thread' : Thread σ) :
    ∃ next : World σ, next.heap = heap ∧ next.threads = before ++ thread' :: after := by
  have present : world.threads[before.length]? = some thread := by simp [threads]
  obtain ⟨heap', threads'⟩ := threads_onThread present fun _ _ => (heap, thread')
  exact ⟨_, heap', by rw [threads', threads]; simp⟩

section Follow

variable {thread thread' : Thread σ} {index : Nat}

/-- A thread that has nothing under way is near its twins only. -/
theorem twin_of_idle (near : Machine.Near twins id thread thread') (idle : thread.control = []) :
    thread.Twin twins thread' := by
  cases near with
  | twin twin => exact twin
  | apart => cases idle

theorem idle_of_twin (twin : thread.Twin twins thread') (idle : thread.control = []) :
    thread'.control = [] := by
  have control := twin.control
  rw [idle] at control
  exact List.forall₂_nil_left_iff.mp control

/-- One thread and the heap change in both machines. -/
theorem Near.replaced (near : Near twins id world world')
    (replaces : ReplacesAt index world next thread thread') :
    ∃ other, Machine.Near twins id thread other ∧
      ∀ {heap' : Heap σ} {other' : Thread σ}, next.heap.Twin twins heap' →
        Machine.Near twins id thread' other' →
        ∃ next', next'.heap = heap' ∧ ReplacesAt index world' next' other other' ∧
          Near twins id next next' := by
  obtain ⟨before, after, position, was, is⟩ := replaces
  obtain ⟨before', other, after', was', firsts, here, lasts⟩ :=
    exists_split_of_forall₂ (was ▸ near.threads)
  have position' : before'.length = index := firsts.length_eq ▸ position
  refine ⟨other, here, fun {heap' other'} heap near' => ?_⟩
  obtain ⟨next', rfl, is'⟩ := exists_replacesAt was' heap' other'
  refine ⟨next', rfl, ⟨before', after', position', was', is'⟩, heap, ?_⟩
  rw [is, is']
  exact List.rel_append firsts (.cons near' lasts)

/-- Only the heap changes in both machines. -/
theorem Near.of_heap (near : Near twins id world world') {heap' : Heap σ}
    (heap : next.heap.Twin twins heap') (threads : next.threads = world.threads) :
    ∃ next', next'.heap = heap' ∧ next'.threads = world'.threads ∧ Near twins id next next' :=
  ⟨{ world' with heap := heap' }, rfl, rfl, heap, threads ▸ near.threads⟩

/-- Whatever happens on no thread happens to machines that are near each other. -/
theorem Near.follow (coherent : twins.Coherent) (near : Near twins id world world')
    (happens : Happens world next happening) (other : ∀ index, happening ≠ .act index) :
    ∃ next', Happens world' next' happening ∧ Near twins id next next' := by
  cases happens with
  | act => exact absurd rfl (other _)
  | @take index thread executor before after task rest idle calm waiting left heap threads =>
    have tasks : List.Forall₂ (Task.Twin twins) (world.heap.waiting executor).toList
        (world'.heap.waiting executor).toList := near.heap.waiting executor
    rw [waiting] at tasks
    obtain ⟨before', task', after', waiting', firsts, taken, lasts⟩ :=
      exists_split_of_forall₂ tasks
    obtain ⟨thread', here, replaced⟩ := near.replaced threads
    have twin := twin_of_idle here idle
    -- The tasks that are left may lie in the queue in another way, but in the same order.
    have rests : Queue.Twin (Task.Twin twins) rest ⟨before' ++ after', []⟩ := by
      rw [Queue.Twin, left]
      simpa [Queue.toList] using List.rel_append firsts lasts
    obtain ⟨next', heap', threads', near'⟩ :=
      replaced (heap ▸ near.heap.setWaiting executor rests) (.twin (twin.run taken))
    rw [firsts.length_eq]
    exact ⟨next', .take (idle_of_twin twin idle) (twin.panicking.trans calm) waiting'
      (by simp [Queue.toList]) heap' threads', near'⟩
  | @drop executor rest left heap threads =>
    obtain ⟨kept, left', same⟩ := exists_sublist_of_forall₂ left (near.heap.waiting executor)
    have rests : Queue.Twin (Task.Twin twins) rest ⟨kept, []⟩ := by
      simpa [Queue.Twin, Queue.toList] using same
    obtain ⟨next', heap', threads', near'⟩ :=
      near.of_heap (heap ▸ near.heap.setWaiting executor rests) threads
    exact ⟨next', .drop (by simpa [Queue.toList] using left') heap' threads', near'⟩
  | @begin index thread idle codes heap threads =>
    obtain ⟨thread', here, replaced⟩ := near.replaced threads
    have twin := twin_of_idle here idle
    have begun : Thread.Twin twins
        { thread with control := codes.map .program, panicking := none }
        { thread' with control := codes.map .program, panicking := none } := by
      refine { twin with control := List.forall₂_same.mpr ?_, panicking := rfl }
      intro activation mem
      obtain ⟨code, _, rfl⟩ := List.mem_map.mp mem
      exact .program code
    obtain ⟨next', heap', threads', near'⟩ := replaced (heap ▸ near.heap) (.twin begun)
    exact ⟨next', .begin (idle_of_twin twin idle) codes heap' threads', near'⟩
  | @spawn thread fresh codes control heap threads =>
    have made : thread.Twin twins thread :=
      ⟨rfl, rfl, rfl, fresh ▸ .none, List.forall₂_same.mpr fun activation _ =>
        activation.twin_refl coherent, rfl⟩
    have there : World.threads { world' with others := world'.others.push thread } =
        world'.threads ++ [thread] := by
      simp [World.threads]
    refine ⟨{ world' with others := world'.others.push thread },
      .spawn fresh codes control rfl there, heap ▸ near.heap, ?_⟩
    rw [threads, there]
    exact List.rel_append near.threads (.cons (.twin made) .nil)
  | @engage executor empty heap threads =>
    have waiting : executor.waiting.Twin (Task.Twin twins) executor.waiting := by
      rw [Queue.Twin, empty]
      exact .nil
    have engaged : next.heap.Twin twins
        { world'.heap with executors := world'.heap.executors.push executor } := by
      rw [heap]
      exact { near.heap with executors := near.heap.executors.push ⟨rfl, rfl, waiting⟩ }
    obtain ⟨next', heap', threads', near'⟩ := near.of_heap engaged threads
    exact ⟨next', .engage empty heap' threads', near'⟩
  | outside heap becomes threads =>
    have changed : next.heap.Twin twins { heap with
        fibers := world'.heap.fibers
        executors := world'.heap.executors
        suspensions := world'.heap.suspensions } := by
      rw [becomes]
      exact ⟨rfl, near.heap.executors, near.heap.fibers, near.heap.suspensions, rfl, rfl, rfl, rfl,
        rfl, rfl⟩
    obtain ⟨next', heap', threads', near'⟩ := near.of_heap changed threads
    exact ⟨next', .outside heap heap' threads', near'⟩

end Follow

/-! ### Whatever happens on a thread -/

/-- What is permitted: threads always go on, and twins are permitted the same. -/
structure Regime (permits : Heap σ → Happening σ → Prop) : Prop where
  act : ∀ heap index, permits heap (.act index)
  alike : ∀ {twins : Matching σ} {heap heap' happening}, heap.Twin twins heap' →
    permits heap happening → permits heap' happening

theorem regime_unrestricted : Regime (@Unrestricted σ) :=
  ⟨fun _ _ => trivial, fun _ _ => trivial⟩

theorem regime_typed (custody : Custody σ) : Regime (Happening.Typed custody) where
  act _ _ := trivial
  alike {twins heap heap' happening} heaps typed := by
    cases happening with
    | act | take | drop | engage => trivial
    | begin index codes => exact typed
    | spawn thread =>
      rw [Happening.Typed, heaps.timers]
      exact typed
    | outside heap =>
      rw [Happening.Typed, heaps.mailboxes, heaps.timers, heaps.world]
      exact typed

/-- Steps of one thread are steps of its machine. -/
theorem Regime.undisturbed_of_goes (regime : Regime permits) {before after : List (Thread σ)}
    {fits : Heap σ × Thread σ → Prop} (stays : World σ → Prop) {first last : Heap σ × Thread σ}
    (goes : Machine.Goes id fits first last)
    (staying : ∀ {next : World σ} point, fits point → next.heap = point.1 →
      next.threads = before ++ point.2 :: after → stays next) :
    ∀ {world : World σ}, world.heap = first.1 → world.threads = before ++ first.2 :: after →
      ∃ next : World σ,
        Relation.ReflTransGen (fun before' after' =>
          Undisturbed permits id (.act before.length) before' after' ∧ stays after') world next ∧
          next.heap = last.1 ∧ next.threads = before ++ last.2 :: after := by
  induction goes using Relation.ReflTransGen.head_induction_on with
  | refl => exact fun {world} heap threads => ⟨world, .refl, heap, threads⟩
  | @head first middle step _ ih =>
    intro world heap threads
    obtain ⟨undue, rfl, fit⟩ := step
    rw [← heap] at undue ih fit
    obtain ⟨after₁, heap₁, threads₁⟩ :=
      exists_replacesAt threads (Machine.step world.heap first.2).1
        (Machine.step world.heap first.2).2
    obtain ⟨next, steps, there⟩ := ih heap₁ threads₁
    have step : Undisturbed permits id (.act before.length) world after₁ :=
      ⟨undue, regime.act _ _, .act heap₁ ⟨before, after, rfl, threads, threads₁⟩⟩
    exact ⟨next, .head ⟨step, staying _ fit heap₁ threads₁⟩ steps, there⟩

/-- Wherever both machines run a fiber next, its places rejoin. -/
def Rejoining (twins : Matching σ) (id : FiberId) (world world' : World σ) : Prop :=
  ∀ thread ∈ world.threads, ∀ thread' ∈ world'.threads, ∀ focus stack focus' stack',
    thread.next? = some (.loop id focus stack) → thread'.next? = some (.loop id focus' stack') →
    twins id (.active focus stack) (.active focus' stack') →
    Machine.Rejoins twins id (.active focus stack) (.active focus' stack')

theorem Rejoining.flip (h : Rejoining twins id world world') :
    Rejoining twins.flip id world' world :=
  fun thread known thread' known' focus stack focus' stack' next next' place =>
    (h thread' known' thread known focus' stack' focus stack next' next place).flip

/-- Registrations that threads run are those of suspensions of the same fiber. -/
def Meets (world : World σ) : Prop :=
  ∀ thread ∈ world.threads, ∀ fiber focus stack, thread.next? = some (.loop fiber focus stack) →
    focus.Owns fiber world.heap

theorem Reachable.meets (reached : world.Reachable) : world.Meets := by
  intro thread known fiber focus stack next callback registering
  obtain ⟨-, rest, control⟩ := Thread.next?_eq_some_iff.mp next
  cases focus with
  | registering other code =>
    cases registering
    obtain ⟨⟨_, state⟩, present, rfl, -⟩ := (owned_of_reachable reached).meeting _
      ⟨thread, known, control ▸ List.mem_cons_self⟩
    exact ⟨state, present⟩
  | node | value | cause | thunk | raising | building => cases registering

/-- Who is near somebody runs a loop where the other one does. -/
theorem registering_of_near {thread thread' : Thread σ} (coherent : twins.Coherent)
    (near : Machine.Near twins id thread thread') {fiber : FiberId} {focus' : Focus σ}
    {stack' : List (Frame σ)} (next : thread'.next? = some (.loop fiber focus' stack')) :
    ∃ focus stack, thread.next? = some (.loop fiber focus stack) ∧
      focus'.registering? = focus.registering? := by
  cases near with
  | twin twin =>
    obtain ⟨under', under, focus, stack, rfl, rfl, -, calm, place⟩ :=
      Machine.exists_push_of_next? twin.flip next
    exact ⟨focus, stack, Thread.next?_eq_some_iff.mpr ⟨twin.panicking.symm.trans calm, _, rfl⟩,
      coherent.registering place⟩
  | apart twin calm rejoins =>
    obtain ⟨-, rest, control⟩ := Thread.next?_eq_some_iff.mp next
    cases control
    exact ⟨_, _, Thread.next?_eq_some_iff.mpr ⟨calm, _, rfl⟩, rejoins.registering⟩

theorem Near.meets (near : Near twins id world world') (coherent : twins.Coherent)
    (meets : world.Meets) : world'.Meets := by
  intro thread' known' fiber focus' stack' next'
  obtain ⟨before', after', was'⟩ := List.append_of_mem known'
  obtain ⟨before, thread, after, was, -, here, -⟩ :=
    exists_split_of_forall₂ (was' ▸ near.flip.threads)
  obtain ⟨focus, stack, next, same⟩ := registering_of_near coherent here.flip next'
  exact Machine.owns_of_registering near.heap same
    (meets thread (by simp [was]) fiber focus stack next)

/-- Whatever happens to a machine happens to one that is near it. -/
theorem Near.forth (regime : Regime permits) (coherent : twins.Coherent) (only : twins.Only id)
    (near : Near twins id world world') (meets : world.Meets)
    (rejoining : Rejoining twins id world world')
    (step : Undisturbed permits id happening world next) :
    Answers permits id happening (Near twins id world) (Near twins id next) world' := by
  obtain ⟨undue, permitted, happens⟩ := step
  have undue' := (near.heap.shouldInterrupt_eq id).trans undue
  by_cases acts : ∃ index, happening = .act index
  · obtain ⟨index, rfl⟩ := acts
    cases happens with
    | @act _ thread heap threads =>
      obtain ⟨before, after, rfl, was, is⟩ := threads
      obtain ⟨before', thread', after', was', firsts, here, lasts⟩ :=
        exists_split_of_forall₂ (was ▸ near.threads)
      have known : thread ∈ world.threads := by simp [was]
      have known' : thread' ∈ world'.threads := by simp [was']
      -- Whatever becomes of the heap and of this thread, the other threads stay near each other.
      have beside {first first' : World σ} {point point' : Heap σ × Thread σ}
          (there : Machine.Beside twins id point point') (heap : first.heap = point.1)
          (heap' : first'.heap = point'.1) (threads : first.threads = before ++ point.2 :: after)
          (threads' : first'.threads = before' ++ point'.2 :: after') :
          Near twins id first first' := by
        refine ⟨heap ▸ heap' ▸ there.heap, ?_⟩
        rw [threads, threads']
        exact List.rel_append firsts (.cons there.near lasts)
      rw [firsts.length_eq]
      rcases Machine.near_step coherent near.heap here undue (meets thread known) only
          (rejoining thread known thread' known') with waits | ⟨middle, goes, there⟩
      · exact .already (beside waits heap rfl is was')
      · obtain ⟨between, silent, heap₁, threads₁⟩ :=
          regime.undisturbed_of_goes (Near twins id world) goes
            (fun point fit heap' threads' => beside fit rfl heap' was threads') rfl was'
        obtain ⟨next', heap₂, threads₂⟩ :=
          exists_replacesAt threads₁ (Machine.step between.heap middle.2).1
            (Machine.step between.heap middle.2).2
        have still : between.heap.shouldInterrupt id = false := by
          rcases Relation.ReflTransGen.cases_tail silent with rfl | ⟨_, _, _, near⟩
          · exact undue'
          · exact (near.heap.shouldInterrupt_eq id).trans undue
        rw [← heap₁] at there
        exact .after silent
          ⟨still, regime.act _ _, .act heap₂ ⟨before', after', rfl, threads₁, threads₂⟩⟩
          (beside there heap heap₂ is threads₂)
  · obtain ⟨next', happens', near'⟩ :=
      near.follow coherent happens fun index act => acts ⟨index, act⟩
    exact .after .refl ⟨undue', regime.alike near.heap permitted, happens'⟩ near'

/-- Machines that are near each other are the same but for where one fiber stands. -/
theorem Near.agrees (near : Near twins id world world') (only : twins.Only id) :
    world.Twin (.anywhere id) world' := by
  refine ⟨near.heap.mono only.le_anywhere, near.threads.imp fun thread thread' here => ?_⟩
  cases here with
  | twin twin => exact twin.mono only.le_anywhere
  | apart twin calm rejoins => exact (twin.mono only.le_anywhere).push (.loop (.inl rfl))

/-- Machines that are near each other cannot be told apart if their places rejoin, as long as
something lasts that says so. -/
theorem bisimulation_of_near (regime : Regime permits) (coherent : twins.Coherent)
    (only : twins.Only id) {lasting : World σ → Prop}
    (lasts : ∀ {world next happening}, lasting world → permits world.heap happening →
      Happens world next happening → lasting next)
    (meets : ∀ {world}, lasting world → world.Meets)
    (rejoining : ∀ {world world'}, lasting world → Rejoining twins id world world') :
    Bisimulation permits id fun world world' => lasting world ∧ Near twins id world world' where
  agrees related := related.2.agrees only
  forth := by
    intro world world' next happening ⟨good, near⟩ step
    exact (near.forth regime coherent only (meets good) (rejoining good) step).imp
      (fun _ near => ⟨good, near⟩)
      fun _ near => ⟨lasts good step.permitted step.happens, near⟩
  back := by
    intro world world' next' happening ⟨good, near⟩ step
    -- What lasts is known of the first machine only, so its answer has to carry it along.
    have answers := near.flip.forth regime coherent.flip
      (fun fiber place place' other same => (only fiber place' place other same).symm)
      (near.meets coherent (meets good)) (rejoining good).flip step
    exact (answers.lasting good lasts).imp (fun _ near => near.imp_right Near.flip)
      fun _ near => near.imp_right Near.flip

end World

end Fibers
