import Fibers.Proofs.Machine.Environment
import Fibers.Proofs.World.ForkJoin
import Fibers.Proofs.World.Influence

/-!
# Isolation of fibers

Fibers share executors, threads and a heap, but none of them can change what another one reads from
its environments, where it runs, or how far it may be interrupted.

## Main results

`World.Run.environments`: the environments of a fiber come from those that it had by its own changes
alone. `World.isolation` puts this together with `World.StepsAt.influence`, for the steps of other
fibers, and with `World.Forks.newborn`, for what a child starts with.
-/

namespace Fibers

variable {σ : Type}

namespace World

variable {run : Nat → World σ} {id parent child : FiberId} {first last n i : Nat}
  {thread : Thread σ}
  {stack : List (Frame σ)}

/-! ### Scopes -/

/-- A fiber interprets a node that enters a scope or leaves one. -/
def Scopes (run : Nat → World σ) (id : FiberId) (n : Nat) (change : ScopeChange) : Prop :=
  ∃ i thread current stack, StepsAt run n i thread ∧
    thread.next? = some (.loop id (.node current) stack) ∧
    (run n).heap.shouldInterrupt id = false ∧ current.scopeChange? = some change

theorem scopeChange?_eq_some_iff {heap : Heap σ} {change : ScopeChange} :
    thread.scopeChange? heap = some (id, change) ↔
      ∃ current stack, thread.next? = some (.loop id (.node current) stack) ∧
        heap.shouldInterrupt id = false ∧ current.scopeChange? = some change := by
  unfold Thread.scopeChange?
  constructor
  · intro changes
    split at changes
    next owner current stack next =>
      split at changes
      next => cases changes
      next undue =>
        obtain ⟨_, own, same⟩ := Option.map_eq_some_iff.mp changes
        cases same
        exact ⟨current, stack, next, Bool.eq_false_iff.mpr undue, own⟩
    next => cases changes
  · rintro ⟨current, stack, next, undue, own⟩
    simp [next, undue, own]

/-- A loop that takes a step is of a fiber that stands there. -/
theorem StepsAt.places (steps : StepsAt run n i thread) (h : Run run) {focus : Focus σ}
    (next : thread.next? = some (.loop id focus stack)) :
    (run n).places id = {.active focus stack} := by
  obtain ⟨_, rest, control⟩ := Thread.next?_eq_some_iff.mp next
  exact places_of_loop (h.owned n) (List.mem_of_getElem? steps.before)
    (control ▸ List.mem_cons_self)

/-- A fiber makes one change at a time. -/
theorem Scopes.unique (h : Run run) {change other : ScopeChange} (scopes : Scopes run id n change)
    (scopes' : Scopes run id n other) : other = change := by
  obtain ⟨i, thread, current, stack, steps, next, _, own⟩ := scopes
  obtain ⟨j, thread', current', stack', steps', next', _, own'⟩ := scopes'
  have place := (steps.places h next).symm.trans (steps'.places h next')
  cases Multiset.singleton_inj.mp place
  exact Option.some.inj (own'.symm.trans own)

theorem Run.exists_scopes (h : Run run) (id : FiberId) (le : first ≤ last) :
    ∃ changes, History (Scopes run id) first last changes := by
  induction last, le using Nat.le_induction with
  | base => exact ⟨[], .empty⟩
  | succ n _ ih =>
    obtain ⟨changes, before⟩ := ih
    by_cases scopes : ∃ change, Scopes run id n change
    · obtain ⟨change, now⟩ := scopes
      exact ⟨_, .event before now fun other => now.unique h⟩
    · exact ⟨changes, .quiet before fun change now => scopes ⟨change, now⟩⟩

theorem Scopes.environments {change : ScopeChange} (scopes : Scopes run id n change)
    (knows : (run n).heap.Knows id) :
    (run (n + 1)).heap.environments id = change.apply ((run n).heap.environments id) := by
  obtain ⟨i, thread, current, stack, steps, own⟩ := scopes
  rw [steps.heap, Machine.environments_step knows, scopeChange?_eq_some_iff.mpr ⟨_, _, own⟩]
  exact if_pos rfl

/-- Nobody but the fiber itself changes its environments. -/
theorem Run.environments_of_quiet (h : Run run) (knows : (run n).heap.Knows id)
    (quiet : ∀ change, ¬Scopes run id n change) :
    (run (n + 1)).heap.environments id = (run n).heap.environments id := by
  rcases h.steps_or_rests n with ⟨i, thread, steps⟩ | ⟨fibers, _, _⟩
  · rw [steps.heap, Machine.environments_step knows]
    cases changes : thread.scopeChange? (run n).heap with
    | none => rfl
    | some owned =>
      obtain ⟨owner, change⟩ := owned
      obtain ⟨current, stack, next, undue, own⟩ := scopeChange?_eq_some_iff.mp changes
      have place := steps.places h next
      have known := ((h.owned n).placed place).1
      apply if_neg
      apply knows.index_ne known
      rintro rfl
      exact quiet change ⟨i, thread, current, stack, steps, next, undue, own⟩
  · exact Heap.environments_of_fibers fibers id

/-- The environments of a fiber are those that it had, with its own changes. -/
theorem Run.environments (h : Run run) (knows : (run first).heap.Knows id)
    {changes : List ScopeChange} (history : History (Scopes run id) first last changes) :
    (run last).heap.environments id =
      changes.foldl ScopeChange.apply ((run first).heap.environments id) := by
  have later : ∀ {last changes}, History (Scopes run id) first last changes → first ≤ last := by
    intro last changes history
    induction history with
    | empty => exact le_rfl
    | quiet _ _ ih | event _ _ _ ih => exact Nat.le_succ_of_le ih
  induction history with
  | empty => rfl
  | quiet before none ih =>
    rw [h.environments_of_quiet (h.knows_stays (later before) knows) none, ih]
  | event before now _ ih =>
    rw [now.environments (h.knows_stays (later before) knows), ih, List.foldl_append]
    rfl

/-! ### Reads -/

/-- A fiber reads its environments. -/
def Accesses (run : Nat → World σ) (id : FiberId) (continuation : Continuation σ)
    (stack : List (Frame σ)) (n : Nat) : Prop :=
  ∃ i thread, StepsAt run n i thread ∧
    thread.next? = some (.loop id (.node (.access continuation)) stack) ∧
    (run n).heap.shouldInterrupt id = false

/-- What a fiber does with the environments that it reads. -/
def accessed (continuation : Continuation σ) (stack : List (Frame σ)) : List Erased → Place σ
  | environment :: _ => .active (.building (continuation.applyTo environment)) stack
  | [] => .active (.cause .missingEnvironment) stack

theorem Accesses.place {continuation : Continuation σ} (h : Run run)
    (accesses : Accesses run id continuation stack n) :
    (run (n + 1)).places id = {accessed continuation stack ((run n).heap.environments id)} := by
  obtain ⟨i, thread, steps, next, undue⟩ := accesses
  obtain ⟨calm, rest, control⟩ := Thread.next?_eq_some_iff.mp next
  have step := Machine.step_of_undue calm control undue
  simp only [Machine.interpret] at step
  -- The loop is put back with what the node has found.
  have put {focus : Focus σ} (same : Machine.step (run n).heap thread = ((run n).heap,
      Machine.refocus { thread with control := rest } id focus stack)) :
      (run (n + 1)).places id = {.active focus stack} := by
    apply places_of_loop (h.owned (n + 1)) (List.mem_of_getElem? steps.after)
    rw [same]
    exact List.mem_cons_self
  split at step
  next environment outer provided =>
    rw [provided]
    exact put step
  next missing =>
    rw [missing]
    exact put step

/-! ### Children -/

/-- What a child starts with: the environments and the executor that its parent has at the moment of
the fork, and no interruption in sight. -/
structure Newborn (world world' : World σ) (parent child : FiberId) (effect : Node σ) : Prop where
  state : world'.heap.fiber? child = some
    { progress := .running []
      flags := { requested := false, finalizing := false, status := .interruptible }
      environments := world.heap.environments parent
      executor := world.heap.executorOf parent
      seed := none }
  /-- The child is about to run, unless its executor has not taken it. -/
  place : world'.places child = {.active (.node effect) []} ∨ world'.places child = 0

theorem Forks.newborn {effect : Node σ} (h : Run run) (forks : Forks run parent child effect n) :
    Newborn (run n) (run (n + 1)) parent child effect := by
  obtain ⟨i, thread, stack, steps, next, undue, rfl⟩ := forks
  obtain ⟨calm, rest, control⟩ := Thread.next?_eq_some_iff.mp next
  have step := Machine.step_of_undue calm control undue
  simp only [Machine.interpret, Machine.fork, Heap.report_addFiber] at step
  generalize reported_eq : (run n).heap.report thread.id .debug
    (fun _ => .fiberForked parent (run n).heap.nextFiber) = reported at step
  have next' : reported.nextFiber = (run n).heap.nextFiber := by
    rw [← reported_eq, Heap.nextFiber_report]
  have unknown : (run n).places (run n).heap.nextFiber = 0 :=
    (h.owned n).known _ (run n).heap.not_knows_nextFiber
  obtain ⟨others, was, is⟩ := steps.replaces.exists_places (run n).heap.nextFiber
  rw [unknown, Machine.held, Thread.places_of_control control] at was
  obtain ⟨own, none⟩ := add_eq_zero.mp was.symm
  obtain ⟨inHeap, onThread⟩ := add_eq_zero.mp own
  obtain ⟨loop, under⟩ := add_eq_zero.mp onThread
  rw [← next'] at step is loop under inHeap ⊢
  have seed : (FiberState.mk (.running []) {} ((run n).heap.environments parent)
    ((run n).heap.executorOf parent) (some effect)).seed = some effect := rfl
  have executes := Machine.executes_start reported
    (Machine.refocus { thread with control := rest } parent (.value ⟨.context, reported.nextFiber⟩)
      stack) seed false
  rw [← step] at executes
  constructor
  · rw [steps.heap, Heap.fiber?, executes.fibers, Heap.fibers_launch]
    exact if_pos rfl
  · obtain ⟨gained, gain, handed⟩ := executes.places reported.nextFiber
    have apart : parent ≠ reported.nextFiber := by
      intro same
      rw [Activation.places, if_pos same] at loop
      exact Multiset.singleton_ne_zero _ loop
    -- Nothing stands for the child but what its executor has been handed.
    have launched (child : FiberState σ) :
        (reported.launch child).places reported.nextFiber = 0 := by
      rw [Heap.places_launch, ← inHeap, ← reported_eq, Heap.places_report]
    rw [Machine.refocus, Thread.places_push, Activation.places, if_neg apart, zero_add, under,
      add_zero] at gain
    rw [launched, add_zero, Batch.places, if_pos rfl] at handed
    rw [is, none, add_zero, Machine.held, gain, steps.heap]
    exact handed

/-! ### All of it -/

/-- A fiber goes on from some environments by its own changes alone, and reads nothing else. -/
structure Keeps (run : Nat → World σ) (id : FiberId) (snapshot : List Erased) (first : Nat) :
    Prop where
  environments : ∀ last, first ≤ last → ∃ changes, History (Scopes run id) first last changes ∧
    (run last).heap.environments id = changes.foldl ScopeChange.apply snapshot
  reads : ∀ last continuation stack, first ≤ last → Accesses run id continuation stack last →
    ∃ changes, History (Scopes run id) first last changes ∧
      (run (last + 1)).places id =
        {accessed continuation stack (changes.foldl ScopeChange.apply snapshot)}

theorem Run.keeps (h : Run run) (knows : (run first).heap.Knows id) :
    Keeps run id ((run first).heap.environments id) first where
  environments last le := by
    obtain ⟨changes, history⟩ := h.exists_scopes id le
    exact ⟨changes, history, h.environments knows history⟩
  reads last continuation stack le accesses := by
    obtain ⟨changes, history⟩ := h.exists_scopes id le
    refine ⟨changes, history, ?_⟩
    rw [accesses.place h, h.environments knows history]

open Effect

end World

end Fibers
