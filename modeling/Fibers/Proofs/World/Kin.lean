import Fibers.Proofs.Machine.Brief
import Fibers.Proofs.World.Drains
import Fibers.Proofs.World.Isolation
import Fibers.Proofs.World.Propagation

/-!
# Families of bounded fibers

The fibers that come of a bounded effect are those that run it or that one of them forks. Such a
family may stand on many threads, be asked for interruption at any time and share its executors with
others; still, it takes finitely many steps in a run.

## Main results

`World.Kin.bounded`: every fiber of the family runs a bounded effect. `World.Bounded.ceases`: there
is a moment after which no fiber of the family takes a step.

## Proof strategy

A step of a loop changes where its fiber stands (`World.Proceeds.places_ne`), so it is a step of the
strand that the fiber shows, and a strand of a bounded fiber comes to an end (`Place.Bounded.ends`).
The induction is on that: the family of a fiber at one moment is the family of the same fiber a
moment later and that of the child that it forks.
-/

namespace Fibers

variable {σ : Type}

namespace World

open Strand

variable {run : Nat → World σ} {id child parent root : FiberId} {first n m i : Nat}
  {thread : Thread σ} {effect : Node σ}

/-! ### Bounded fibers in a machine -/

/-- A fiber that runs a bounded effect, and that is observed by nobody who has anything run. -/
structure Bounded (world : World σ) (id : FiberId) : Prop where
  knows : world.heap.Knows id
  places : ∀ place ∈ world.places id, place.Bounded
  observers : ∀ observer ∈ world.heap.observers id, observer.Modest

theorem RegistersAt.modest {observer : Observer σ} (registers : RegistersAt run i id n observer)
    (knows : (run n).heap.Knows id) : observer.Modest := by
  obtain ⟨thread, activation, target, _, _, registered, own⟩ := registers
  have asked {α : Type} {code : Code σ α}
      (registered : code.registered? (run n).heap = some (target, observer)) : observer.Modest := by
    cases code with
    | observe fiber type callback next =>
      simp only [Action.registered?] at registered
      split at registered <;> cases registered
      exact .resume type callback
    | submit executor effect type next =>
      cases registered
      exact .answer type _
    | launchWith executor effect callback next =>
      -- A fiber that is just made is none of those that are known.
      cases registered
      obtain ⟨index, small, rfl⟩ := knows
      exact absurd own.symm (Nat.ne_of_lt small)
    | _ => cases registered
  cases activation with
  | program code | callback code => exact asked registered
  | loop id focus stack => cases focus <;> first | exact asked registered | cases registered
  | _ => cases registered

theorem Bounded.next (bounded : (run n).Bounded id) (h : Run run) : (run (n + 1)).Bounded id where
  knows := (h.moves n).knows bounded.knows
  places := by
    by_cases there : (run n).places id = 0
    · have gone : (run (n + 1)).places id = 0 := (h.moves n).nowhere bounded.knows there
      simp [gone]
    · obtain ⟨place, holding, shows'⟩ := exists_shows (h.owned n) there
      have here : (run n).places id = {place} := shows'.place
      have before : place.Bounded := bounded.places place (here ▸ Multiset.mem_singleton_self place)
      rcases shows'.moves (h.owned n) (h.moves n) with ⟨after, shown, moves⟩ | ⟨gone, _⟩
      · have there : (run (n + 1)).places id = {after.place} := shown.place
        have next : after.place.Bounded := by
          rcases moves.waits_or_steps with ⟨_, rfl, _⟩ | ⟨_, _, _, step⟩
          · exact before
          · exact step.bounded before
        simpa [there] using next
      · have gone : (run (n + 1)).places id = 0 := gone
        simp [gone]
  observers := by
    rcases h.progress_cases n id with same | ⟨observer, i, registers⟩ | ⟨_, _, exit, _, _, done⟩
    · rw [Heap.observers, same]
      exact bounded.observers
    · rw [Heap.observers, registers.progress h]
      have others := bounded.observers
      rw [Heap.observers] at others
      cases progress : (run n).heap.progress id with
      | done => exact List.forall_mem_nil _
      | running observers =>
        rw [progress] at others
        exact List.forall_mem_append.mpr
          ⟨others, List.forall_mem_singleton.mpr (registers.modest bounded.knows)⟩
    · rw [Heap.observers, done]
      exact List.forall_mem_nil _

theorem Bounded.later (bounded : (run n).Bounded id) (h : Run run) (le : n ≤ m) :
    (run m).Bounded id := by
  induction m, le using Nat.le_induction with
  | base => exact bounded
  | succ m _ ih => exact ih.next h

/-- A loop that takes a step, whether or not its thread panics. -/
theorem StepsAt.places_of_control (steps : StepsAt run n i thread) (h : Run run) {focus : Focus σ}
    {stack : List (Frame σ)} {rest : List (Activation σ)}
    (control : thread.control = .loop id focus stack :: rest) :
    (run n).places id = {.active focus stack} :=
  places_of_loop (h.owned n) (List.mem_of_getElem? steps.before) (control ▸ List.mem_cons_self)

theorem Forks.place (forks : Forks run id child effect n) (h : Run run) :
    ∃ stack, (run n).places id = {.active (.node (.fork effect)) stack} := by
  obtain ⟨i, thread, stack, steps, next, _, _⟩ := forks
  exact ⟨stack, steps.places h next⟩

/-- What a bounded fiber forks is bounded. -/
theorem Forks.bounded (forks : Forks run parent child effect n) (h : Run run)
    (bounded : (run n).Bounded parent) : (run (n + 1)).Bounded child where
  knows := forks.knows
  places := by
    obtain ⟨stack, place⟩ := forks.place h
    have focus : (Place.active (.node (.fork effect)) stack).Bounded :=
      bounded.places _ (place ▸ Multiset.mem_singleton_self _)
    have effect : effect.Bounded := by
      cases focus with
      | active focus =>
        cases focus with
        | node fork =>
          cases fork with
          | fork effect => exact effect
    rcases (forks.newborn h).place with there | gone
    · simpa [there] using Place.Bounded.active (.node effect) (List.forall_mem_nil _)
    · simp [gone]
  observers := by
    rw [Heap.observers, Heap.progress, (forks.newborn h).state]
    exact List.forall_mem_nil _

/-! ### Steps of a loop -/

/-- The loop of a fiber takes a step. -/
def Proceeds (run : Nat → World σ) (id : FiberId) (n : Nat) : Prop :=
  ∃ i thread focus stack rest, StepsAt run n i thread ∧
    thread.control = .loop id focus stack :: rest

theorem Forks.proceeds (forks : Forks run id child effect n) : Proceeds run id n := by
  obtain ⟨i, thread, stack, steps, next, _⟩ := forks
  obtain ⟨_, rest, control⟩ := Thread.next?_eq_some_iff.mp next
  exact ⟨i, thread, _, stack, rest, steps, control⟩

theorem Proceeds.there (proceeds : Proceeds run id n) (h : Run run) : (run n).places id ≠ 0 := by
  obtain ⟨i, thread, focus, stack, rest, steps, control⟩ := proceeds
  exact (steps.places_of_control h control).trans_ne (Multiset.singleton_ne_zero _)

/-- Whoever runs a loop has a queue for what comes to the thread meanwhile. -/
theorem Run.pending_isSome (h : Run run) (fresh : (run 0).Fresh)
    (known : (run n).threads[i]? = some thread) (busy : drainsOf thread.control ≠ []) :
    thread.pending.isSome := by
  obtain ⟨drains, d, _⟩ := queue_discipline h fresh known
  have stack := d.stack
  have queues := d.queues
  generalize thread.pending = queue at queues
  cases queues with
  | none => exact absurd stack busy
  | drain => rfl

theorem drainsOf_loop_ne_nil {world : World σ} (reached : world.Reachable)
    (known : thread ∈ world.threads) {focus : Focus σ} {stack : List (Frame σ)}
    {rest : List (Activation σ)} (control : thread.control = .loop id focus stack :: rest) :
    drainsOf thread.control ≠ [] := by
  have nested := nested_of_reachable reached thread known
  rw [control] at nested ⊢
  obtain ⟨outer, below, rfl, _⟩ := nested.of_loop
  exact List.cons_ne_nil _ _

/-- What a step does to the loop of a bounded fiber on a thread that does not panic. -/
theorem StepsAt.loopStep (steps : StepsAt run n i thread) (h : Run run) (fresh : (run 0).Fresh)
    (bounded : (run n).Bounded id) {focus : Focus σ} {stack : List (Frame σ)}
    {rest : List (Activation σ)} (control : thread.control = .loop id focus stack :: rest)
    (calm : thread.panicking = none) :
    Machine.LoopStep (run n).heap { thread with control := rest } id focus stack
      (Machine.step (run n).heap thread) := by
  have known := List.mem_of_getElem? steps.before
  have running := h.pending_isSome fresh steps.before
    (drainsOf_loop_ne_nil (h.reachable n) known control)
  obtain ⟨fiber, present, alive⟩ :=
    steps.steady h id focus stack (Thread.next?_eq_some_iff.mpr ⟨calm, rest, control⟩)
  have place := steps.places_of_control h control
  have focused : focus.Bounded := by
    cases bounded.places _ (place ▸ Multiset.mem_singleton_self _) with
    | active focus => exact focus
  rw [Machine.step_of_next? (run n).heap calm control]
  exact Machine.loopStep_of_bounded focused present alive (steps.meets h control) running

/-- What becomes of the fiber of a loop that a panic has got to. -/
theorem StepsAt.places_of_panicking (steps : StepsAt run n i thread) (h : Run run)
    {focus : Focus σ} {stack : List (Frame σ)} {rest : List (Activation σ)}
    (control : thread.control = .loop id focus stack :: rest) {payload : Payload}
    (panicking : thread.panicking = some payload) :
    (run (n + 1)).places id ≠ {.active focus stack} := by
  have known := List.mem_of_getElem? steps.after
  have stepped := Machine.step_of_panicking (run n).heap panicking control
  rcases caught : focus.caught payload with _ | next
  · -- The loop is gone, and so is its fiber.
    have lost : Lost run id (n + 1) := by
      refine (steps.stepped.dropped h ⟨by simp [panicking], _, _, control, ?_⟩ control).2.2.1
        id focus stack rfl
      cases focus <;> first | rfl | cases caught
    intro there
    exact Multiset.singleton_ne_zero _ (there.symm.trans (lost _ le_rfl).1)
  · have changed : next ≠ focus := by cases focus <;> cases caught <;> rintro ⟨⟩
    have there : .loop id next stack ∈ (Machine.step (run n).heap thread).2.control := by
      rw [stepped]
      cases focus <;> cases caught <;> exact List.mem_cons_self
    rw [places_of_loop (h.owned (n + 1)) known there]
    intro same
    cases Multiset.singleton_inj.mp same
    exact changed rfl

/-! ### Families -/

/-- A fiber, and all that come of its forks from some moment on. -/
inductive Kin (run : Nat → World σ) (first : Nat) (root : FiberId) : FiberId → Prop where
  | root : Kin run first root root
  | forked {parent child : FiberId} {effect : Node σ} {m : Nat} (kin : Kin run first root parent)
      (since : first ≤ m) (forks : Forks run parent child effect m) : Kin run first root child

theorem Forks.unknown (forks : Forks run parent child effect m) (h : Run run) (le : n ≤ m) :
    ¬(run n).heap.Knows child := by
  obtain ⟨_, _, _, _, _, _, rfl⟩ := forks
  exact fun knows => (run m).heap.not_knows_nextFiber (h.knows_stays le knows)

theorem Kin.eq_or_unknown (kin : Kin run first root id) (h : Run run) :
    id = root ∨ ¬(run first).heap.Knows id := by
  cases kin with
  | root => exact .inl rfl
  | forked _ since forks => exact .inr (forks.unknown h since)

/-- Every fiber of the family of a bounded fiber is bounded as soon as it is there. -/
theorem Kin.bounded (kin : Kin run first root id) (h : Run run)
    (bounded : (run first).Bounded root) (le : first ≤ n) (knows : (run n).heap.Knows id) :
    (run n).Bounded id := by
  induction kin generalizing n with
  | root => exact bounded.later h le
  | @forked parent child effect m _ since forks ih =>
    have born : m + 1 ≤ n := by
      by_contra early
      exact forks.unknown h (by omega) knows
    have parent := ih since ((h.owned m).there (forks.proceeds.there h)).1
    exact (forks.bounded h parent).later h born

/-- A moment later, the family is that of the same fiber and that of its newest child. -/
theorem Kin.split (kin : Kin run n root id) (h : Run run) :
    Kin run (n + 1) root id ∨
      ∃ child effect, Forks run root child effect n ∧ Kin run (n + 1) child id := by
  induction kin with
  | root => exact .inl .root
  | @forked parent child effect m kin since forks ih =>
    rcases Nat.eq_or_lt_of_le since with rfl | later
    · -- Whoever forks now is the first one, since nobody else of the family is there yet.
      have known := ((h.owned n).there (forks.proceeds.there h)).1
      obtain rfl := (kin.eq_or_unknown h).resolve_right (not_not_intro known)
      exact .inr ⟨child, effect, forks, .root⟩
    · rcases ih with same | ⟨newest, other, forked, below⟩
      · exact .inl (same.forked later forks)
      · exact .inr ⟨newest, other, forked, below.forked later forks⟩

/-- A fiber that moves to another executor stands in a task there, unless its executor has not taken
it. -/
theorem StepsAt.places_of_shift (steps : StepsAt run n i thread) (h : Run run)
    {executor : ExecutorId} {stack : List (Frame σ)}
    (next : thread.next? = some (.loop id (.node (.shift executor)) stack))
    (undue : (run n).heap.shouldInterrupt id = false) :
    (run (n + 1)).places id = {.active (.node .unit) stack} ∨ (run (n + 1)).places id = 0 := by
  obtain ⟨calm, rest, control⟩ := Thread.next?_eq_some_iff.mp next
  have step := Machine.step_of_undue calm control undue
  simp only [Machine.interpret] at step
  -- Without the loop, the fiber is nowhere.
  obtain ⟨others, was, is⟩ := steps.replaces.exists_places id
  have single : ((run n).places id).card ≤ 1 := (h.owned n).single id
  rw [was, Machine.held, Thread.places_of_control control, Activation.places, if_pos rfl] at single
  simp only [Multiset.card_add, Multiset.card_singleton] at single
  have alone : others = 0 ∧ (run n).heap.places id = 0 ∧
      Thread.places { thread with control := rest } id = 0 := by
    simp only [← Multiset.card_eq_zero]
    omega
  obtain ⟨gained, gain, handed⟩ := (Machine.executes_execute
    (((run n).heap.setExecutor id executor).report thread.id .trace
      fun _ => .executorShifted id ((run n).heap.executorName executor))
    { thread with control := rest } executor ⟨⟨id, Node.unit, stack⟩, false⟩).places id
  rw [← step, alone.2.2, add_zero] at gain
  rw [← step, Heap.places_report, Heap.places_setExecutor, alone.2.1, add_zero, Batch.places,
    if_pos rfl] at handed
  rw [is, alone.1, add_zero, Machine.held, gain, steps.heap]
  exact handed

/-- A step of the loop of a bounded fiber changes where the fiber stands. -/
theorem Proceeds.places_ne (proceeds : Proceeds run id n) (h : Run run) (fresh : (run 0).Fresh)
    (bounded : (run n).Bounded id) : (run (n + 1)).places id ≠ (run n).places id := by
  obtain ⟨i, thread, focus, stack, rest, steps, control⟩ := proceeds
  rw [steps.places_of_control h control]
  cases panicking : thread.panicking with
  | some payload => exact steps.places_of_panicking h control panicking
  | none =>
    cases steps.loopStep h fresh bounded control panicking with
    | @on focus' stack' begun told changed left running =>
      have there : .loop id focus' stack' ∈ (Machine.step (run n).heap thread).2.control :=
        left ▸ List.mem_append_right _ List.mem_cons_self
      rw [places_of_loop (h.owned (n + 1)) (List.mem_of_getElem? steps.after) there]
      intro same
      cases Multiset.singleton_inj.mp same
      exact changed.elim (absurd rfl) (absurd rfl)
    | ended finished undue begins left running =>
      rw [← steps.heap] at finished
      intro same
      have there : (run (n + 1)).places id ≠ 0 := same.trans_ne (Multiset.singleton_ne_zero _)
      cases finished with
      | completed ends ended => cases ended.symm.trans ((h.owned (n + 1)).there there).2
      | suspended parked =>
        cases Multiset.singleton_inj.mp (same.symm.trans (places_of_parked (h.owned _) parked))
      | @moved executor =>
        have next := Thread.next?_eq_some_iff.mpr ⟨panicking, rest, control⟩
        rcases steps.places_of_shift h next (undue executor rfl) with moved | gone
        · cases Multiset.singleton_inj.mp (same.symm.trans moved)
        · exact there gone

/-! ### The end of a family -/

/-- From some moment on, nobody of the family of a fiber takes a step. -/
def Ceases (run : Nat → World σ) (n : Nat) (root : FiberId) : Prop :=
  ∃ last, ∀ m, last ≤ m → ∀ id, Kin run n root id → ¬Proceeds run id m

/-- A fiber that takes no step forks nobody. -/
theorem ceases_of_still (still : ∀ m, n ≤ m → ¬Proceeds run root m) : Ceases run n root := by
  refine ⟨n, fun m le id kin => ?_⟩
  have alone : id = root := by
    induction kin with
    | root => rfl
    | forked _ since forks ih =>
      subst ih
      exact absurd forks.proceeds (still _ since)
  exact alone ▸ still m le

theorem Run.ceases_of_nowhere (h : Run run) (knows : (run n).heap.Knows root)
    (gone : (run n).places root = 0) : Ceases run n root := by
  have nowhere : ∀ m, n ≤ m → (run m).places root = 0 := by
    intro m le
    induction m, le using Nat.le_induction with
    | base => exact gone
    | succ m le ih => exact (h.moves m).nowhere (h.knows_stays le knows) ih
  exact ceases_of_still fun m le proceeds => proceeds.there h (nowhere m le)

/-- The end of a family is that of the same fiber a moment later and of its newest child. -/
theorem ceases_of_next (h : Run run) (same : Ceases run (n + 1) root)
    (newest : ∀ child effect, Forks run root child effect n → Ceases run (n + 1) child) :
    Ceases run n root := by
  obtain ⟨last, still⟩ := same
  by_cases forks : ∃ child effect, Forks run root child effect n
  · obtain ⟨child, effect, forks⟩ := forks
    obtain ⟨last', still'⟩ := newest child effect forks
    refine ⟨max last last', fun m le id kin => ?_⟩
    rcases kin.split h with same | ⟨other, _, forks', below⟩
    · exact still m (le_of_max_le_left le) id same
    · obtain ⟨_, _, _, _, _, _, rfl⟩ := forks
      obtain ⟨_, _, _, _, _, _, rfl⟩ := forks'
      exact still' m (le_of_max_le_right le) id below
  · refine ⟨last, fun m le id kin => still m le id ?_⟩
    refine (kin.split h).resolve_right ?_
    rintro ⟨child, effect, forks', _⟩
    exact forks ⟨child, effect, forks'⟩

/-- A child of a fiber that comes to an end is as near to its own end. -/
theorem Forks.ceases (forks : Forks run parent child effect n) (h : Run run)
    (bounded : (run n).Bounded parent)
    (ends : ∀ holding, (run (n + 1)).scene.Shows child ⟨.active (.node effect) [], holding, true⟩ →
      Ceases run (n + 1) child) : Ceases run (n + 1) child := by
  have newborn := forks.newborn h
  rcases newborn.place with there | gone
  · exact ends _ ⟨forks.knows, there, ⟨_, newborn.state, rfl⟩, nofun⟩
  · exact h.ceases_of_nowhere (forks.bounded h bounded).knows gone

/-- In one moment a fiber stays where it is, or all that comes of it comes to an end. -/
theorem Run.ceases_or_waits (h : Run run) (fresh : (run 0).Fresh) {strand asked : Strand σ}
    (ends : ∀ next, strand.Bears next → ∀ id n, (run n).Bounded id →
      (run n).scene.Shows id next → Ceases run n id)
    (same : asked = strand ∨ asked = strand.request) (bounded : (run n).Bounded id)
    (shows' : (run n).scene.Shows id asked) :
    Ceases run n id ∨ ¬Proceeds run id n ∧ ∃ asked', (asked' = strand ∨ asked' = strand.request) ∧
      (run (n + 1)).scene.Shows id asked' := by
  have place : asked.place = strand.place := by rcases same with rfl | rfl <;> rfl
  have newest : ∀ child effect, Forks run id child effect n → Ceases run (n + 1) child := by
    intro child effect forks
    refine forks.ceases h bounded fun holding shown =>
      ends _ ?_ child (n + 1) (forks.bounded h bounded) shown
    obtain ⟨stack, there⟩ := forks.place h
    obtain ⟨start, own, calling⟩ := strand
    obtain rfl : start = .active (.node (.fork effect)) stack :=
      place.symm.trans (Multiset.singleton_inj.mp (shows'.place.symm.trans there))
    exact .child holding true
  rcases shows'.moves (h.owned n) (h.moves n) with ⟨after, shown, moves⟩ | ⟨gone, _⟩
  · rcases moves.waits_or_steps with ⟨holding, rfl, kept⟩ | ⟨holding, input, kept, step⟩
    · refine .inr ⟨fun proceeds => ?_, _, ?_, shown⟩
      · exact proceeds.places_ne h fresh bounded (shown.place.trans shows'.place.symm)
      · rcases same with rfl | rfl <;> rcases kept with rfl | rfl
        · exact .inl rfl
        · exact .inr rfl
        · exact .inr rfl
        · exact .inr rfl
    · refine .inl (ceases_of_next h ?_ newest)
      refine ends after ?_ id (n + 1) (bounded.next h) shown
      rcases same with rfl | rfl <;> rcases kept with rfl | rfl
      · exact .step (.inl rfl) step
      · exact .step (.inr rfl) step
      · exact .step (.inr rfl) step
      · exact .step (.inr rfl) step
  · exact .inl (ceases_of_next h (h.ceases_of_nowhere (bounded.next h).knows gone) newest)

/-- The family of a fiber whose strand comes to an end takes finitely many steps. -/
theorem Run.ceases_of_ends (h : Run run) (fresh : (run 0).Fresh) {strand : Strand σ}
    (ends : strand.Ends) (bounded : (run n).Bounded id) (shows' : (run n).scene.Shows id strand) :
    Ceases run n id := by
  induction ends generalizing id n with
  | intro strand _ ih =>
    by_contra goes
    have waits : ∀ m, n ≤ m → ¬Ceases run m id ∧
        ∃ asked, (asked = strand ∨ asked = strand.request) ∧ (run m).scene.Shows id asked := by
      intro m le
      induction m, le using Nat.le_induction with
      | base => exact ⟨goes, strand, .inl rfl, shows'⟩
      | succ m le before =>
        obtain ⟨goes, asked, same, shown⟩ := before
        obtain ⟨still, after⟩ := (h.ceases_or_waits fresh (fun next bears _ _ => ih next bears) same
          (bounded.later h le) shown).resolve_left goes
        refine ⟨fun ceases => goes (ceases_of_next h ceases ?_), after⟩
        exact fun child effect forks => absurd forks.proceeds still
    refine goes (ceases_of_still fun m le => ?_)
    obtain ⟨goes, asked, same, shown⟩ := waits m le
    exact ((h.ceases_or_waits fresh (fun next bears _ _ => ih next bears) same (bounded.later h le)
      shown).resolve_left goes).1

/-- The family of a bounded fiber takes finitely many steps. -/
theorem Bounded.ceases (bounded : (run n).Bounded id) (h : Run run) (fresh : (run 0).Fresh) :
    Ceases run n id := by
  by_cases there : (run n).places id = 0
  · exact h.ceases_of_nowhere bounded.knows there
  · obtain ⟨place, holding, shown⟩ := exists_shows (h.owned n) there
    have here : (run n).places id = {place} := shown.place
    have place_bounded := bounded.places place (here ▸ Multiset.mem_singleton_self place)
    exact h.ceases_of_ends fresh (place_bounded.ends holding true) bounded shown

end World

end Fibers
