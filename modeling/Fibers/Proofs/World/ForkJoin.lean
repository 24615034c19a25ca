import Fibers.Proofs.Strand.ForkJoin
import Fibers.Proofs.World.Await

/-!
# Forking and joining

A fiber forks others and joins them, while executors and threads run whatever they have in any
order.

## Main results

`World.fork_join`: once everything has run, the fiber has the values of the others in the order of
its joins, or the cause of the first one in this order that failed.

## Proof strategy

Between forks and joins the fiber takes silent steps (`Strand.Fed.leads`). A join awaits the exit of
its fiber (`World.Follows.awaits`), which is the same however it comes.
-/

namespace Fibers

variable {σ : Type} {A B : Ty}

/-- A fiber goes on with the values of some joins, or it has a cause for its frames. -/
def Place.Receives (finish : List Erased → Effect σ B) (stack : List (Frame σ)) (place : Place σ) :
    Except Cause (List Erased) → Prop
  | .ok values => place = .active (.node (finish values).node) stack
  | .error cause => place.Reaches stack (.failure cause)

/-- A fork keeps the loop of the parent, and makes the child. -/
theorem Machine.control_fork (heap : Heap σ) (thread : Thread σ) (parent : FiberId)
    (effect : Node σ) (stack : List (Frame σ)) :
    .loop parent (.value ⟨.context, heap.nextFiber⟩) stack ∈
        (Machine.fork heap thread parent effect stack).2.control ∧
      (Machine.fork heap thread parent effect stack).1.Knows heap.nextFiber := by
  obtain ⟨event, reported, child, rfl, next, seed, _, _, forked⟩ :=
    Machine.exists_fork_eq heap thread parent effect stack
  have executes := Machine.executes_start (heap.report thread.id .debug event)
    (Machine.refocus thread parent (.value ⟨.context,
      (heap.report thread.id .debug event).nextFiber⟩) stack) seed false
  rw [forked]
  constructor
  · obtain ⟨begun, control, _⟩ := executes.control.control
    rw [control, ← next]
    exact List.mem_append_right _ List.mem_cons_self
  · rw [Heap.Knows, executes.fibers]
    exact (Heap.knows_launch _ child _).mpr (.inr next.symm)

namespace World

open Strand Effect

variable {run : Nat → World σ} {id : FiberId} {first last n : Nat} {stack : List (Frame σ)}
  {strands : Nat → Strand σ} {feed : Nat → Option (Option (Input σ))}
  {holding : Holding} {calling : Bool}

/-! ### Forks -/

/-- A fiber forks an effect. -/
def Forks (run : Nat → World σ) (id child : FiberId) (effect : Node σ) (n : Nat) : Prop :=
  ∃ i thread stack, StepsAt run n i thread ∧
    thread.next? = some (.loop id (.node (.fork effect)) stack) ∧
    (run n).heap.shouldInterrupt id = false ∧ child = (run n).heap.nextFiber

/-- A fork makes the child and goes on with its identity. -/
theorem StepsAt.forks {i : Nat} {thread : Thread σ} {effect : Node σ}
    (steps : StepsAt run n i thread)
    (next : thread.next? = some (.loop id (.node (.fork effect)) stack))
    (undue : (run n).heap.shouldInterrupt id = false) :
    .loop id (.value ⟨.context, (run n).heap.nextFiber⟩) stack ∈
        (Machine.step (run n).heap thread).2.control ∧
      (run (n + 1)).heap.Knows (run n).heap.nextFiber := by
  obtain ⟨calm, rest, control⟩ := Thread.next?_eq_some_iff.mp next
  have step : Machine.step (run n).heap thread =
      Machine.fork (run n).heap { thread with control := rest } id effect stack := by
    rw [Machine.step_of_undue calm control undue, Machine.interpret]
  rw [steps.heap, step]
  exact Machine.control_fork _ _ _ _ _

theorem Forks.knows {child : FiberId} {effect : Node σ} (forks : Forks run id child effect n) :
    (run (n + 1)).heap.Knows child := by
  obtain ⟨i, thread, stack, steps, next, undue, rfl⟩ := forks
  exact (steps.forks next undue).2

theorem Follows.forks (follows : Follows run id strands first last) (h : Run run)
    (tame : Tame run) (fed : Fed strands feed first last)
    (undue : ∀ n, first ≤ n → n ≤ last → (strands n).holding.flags.shouldInterrupt = false)
    {effect : Node σ} (low : first ≤ n) (high : n ≤ last)
    (starts : strands n = ⟨.active (.node (.fork effect)) stack, holding, calling⟩) :
    (∃ m child, n ≤ m ∧ m < last ∧ Stays strands n m ∧ Forks run id child effect m ∧
        strands (m + 1) = ⟨.active (.value ⟨.context, child⟩) stack, holding, true⟩) ∨
      strands last = ⟨.active (.node (.fork effect)) stack, holding, calling⟩ := by
  rcases fed.rests_or_steps low high with rests | ⟨m, input, low', high', rests, step⟩
  · exact .inr ((rests last high le_rfl).trans starts)
  · have before := follows.seen m (low.trans low') high'.le
    have after := follows.seen (m + 1) (Nat.le_succ_of_le (low.trans low')) high'
    have undue' := undue m (low.trans low') high'.le
    rw [rests m low' le_rfl, starts] at before undue'
    rw [starts] at step
    have meaning := step.interprets undue'
    generalize made : strands (m + 1) = next at meaning after
    cases meaning with
    | fork _ child =>
      obtain ⟨i, thread, steps, next⟩ :=
        h.steps_of_changes tame before.place after.place nofun nofun
      have unasked : (run m).heap.shouldInterrupt id = false :=
        before.shouldInterrupt.trans undue'
      -- What the machine makes is what the fiber gets.
      have place := places_of_loop (h.owned (m + 1)) (List.mem_of_getElem? steps.after)
        (steps.forks next unasked).1
      cases Multiset.singleton_inj.mp (after.place.symm.trans place)
      exact .inl ⟨m, _, low', high', rests, ⟨i, thread, stack, steps, next, unasked, rfl⟩, made⟩

/-! ### Joins -/

/-- The exits of fibers come to the one that joins them, in turn, until one has no value. Whether
an exit was there or was waited for, it comes as the same value. -/
inductive Joins (run : Nat → World σ) (strands : Nat → Strand σ) :
    List ((A : Ty) × Fiber A) → Nat → Nat → Except Cause (List Erased) → Prop where
  | nil {first last : Nat} (le : first ≤ last) : Joins run strands [] first last (.ok [])
  | value {A : Ty} {fiber : Fiber A} {rest : List ((A : Ty) × Fiber A)} {first m next last : Nat}
      {exit : Exit Erased} {stack : List (Frame σ)} {value : A.Carrier}
      {result : Except Cause (List Erased)} (low : first ≤ m)
      (ended : (run m).heap.poll fiber.id = some exit)
      (comes : (strands m).place = .active (.value ⟨.exit A, exit.recover A⟩) stack)
      (success : exit.recover A = .success value) (high : m ≤ next)
      (others : Joins run strands rest next last result) :
      Joins run strands (⟨A, fiber⟩ :: rest) first last (result.map (⟨A, value⟩ :: ·))
  | cause {A : Ty} {fiber : Fiber A} {rest : List ((A : Ty) × Fiber A)} {first m last : Nat}
      {exit : Exit Erased} {stack : List (Frame σ)} {cause : Cause} (low : first ≤ m)
      (ended : (run m).heap.poll fiber.id = some exit)
      (comes : (strands m).place = .active (.value ⟨.exit A, exit.recover A⟩) stack)
      (failure : exit.recover A = .failure cause) (high : m ≤ last) :
      Joins run strands (⟨A, fiber⟩ :: rest) first last (.error cause)

theorem Joins.le {fibers : List ((A : Ty) × Fiber A)} {result : Except Cause (List Erased)}
    (joins : Joins run strands fibers first last result) : first ≤ last := by
  induction joins with
  | nil le => exact le
  | value low _ _ _ high _ ih => exact low.trans (high.trans ih)
  | cause low _ _ _ high => exact low.trans high

theorem Joins.since {fibers : List ((A : Ty) × Fiber A)} {result : Except Cause (List Erased)}
    (joins : Joins run strands fibers n last result) (earlier : first ≤ n) :
    Joins run strands fibers first last result := by
  cases joins with
  | nil le => exact .nil (earlier.trans le)
  | value low ended comes success high others =>
    exact .value (earlier.trans low) ended comes success high others
  | cause low ended comes failure high =>
    exact .cause (earlier.trans low) ended comes failure high

/-- What a fiber agrees with, if it has the type and, once it has ended, the exit. -/
def Agrees (world : World σ) (fiber : (A : Ty) × Fiber A) (item : Ty × Exit Erased) : Prop :=
  fiber.1 = item.1 ∧ ∀ exit, world.heap.poll fiber.2.id = some exit → exit = item.2

/-- The result of some joins depends on the exits of the fibers only. -/
theorem Joins.gather (h : Run run) {fibers : List ((A : Ty) × Fiber A)}
    {result : Except Cause (List Erased)} (joins : Joins run strands fibers first last result)
    {items : List (Ty × Exit Erased)} (agree : List.Forall₂ (run last).Agrees fibers items) :
    result = gather items := by
  induction joins generalizing items with
  | nil =>
    cases agree
    rfl
  | value low ended comes success high others ih =>
    cases agree with
    | @cons _ item _ _ agrees others' =>
      obtain ⟨type, exit'⟩ := item
      obtain ⟨rfl, same⟩ := agrees
      cases same _ (h.poll_stays (high.trans others.le) ended)
      rw [Effect.gather, success, ih others']
  | cause low ended comes failure high =>
    cases agree with
    | @cons _ item _ _ agrees others =>
      obtain ⟨type, exit'⟩ := item
      obtain ⟨rfl, same⟩ := agrees
      cases same _ (h.poll_stays high ended)
      rw [Effect.gather, failure]

/-- A fiber is on its way, or waits for one of some others. -/
structure Pending (run : Nat → World σ) (id : FiberId) (n : Nat)
    (fibers : List ((A : Ty) × Fiber A)) (place : Place σ) : Prop where
  unreached : ∀ exit, ¬place.Reaches [] exit
  waits : ∀ callback stack, place = .suspended callback stack →
    ∃ fiber ∈ fibers, ∃ stack, Awaits run id fiber.2.id fiber.1 stack n place

theorem Pending.mono {fibers fibers' : List ((A : Ty) × Fiber A)} {place : Place σ}
    (pending : Pending run id n fibers place) (sub : fibers ⊆ fibers') :
    Pending run id n fibers' place := by
  refine ⟨pending.unreached, fun callback stack waits => ?_⟩
  obtain ⟨fiber, mem, found⟩ := pending.waits callback stack waits
  exact ⟨fiber, sub mem, found⟩

theorem Pending.of_silent {fibers : List ((A : Ty) × Fiber A)} {strand next : Strand σ}
    (silent : strand.Silent next) : Pending run id n fibers strand.place := by
  obtain ⟨⟨focus, stack, active⟩, unreached⟩ := silent.busy
  exact ⟨unreached, fun _ _ waits => by cases active.symm.trans waits⟩

variable {finish : List Erased → Effect σ B}

/-- A fiber that joins another one goes on with its exit, or is pending. -/
theorem Follows.join (follows : Follows run id strands first last) (h : Run run)
    (tame : Tame run) (observation : Observation run) (unshared : Unshared run id)
    (fed : Fed strands feed first last)
    (undue : ∀ n, first ≤ n → n ≤ last → (strands n).holding.flags.shouldInterrupt = false)
    {fiber : Fiber A} {rest : List ((A : Ty) × Fiber A)} {values : List Erased} (low : first ≤ n)
    (high : n ≤ last) (knows : (run n).heap.Knows fiber.id)
    (starts : strands n = ⟨.active (.node (joinAll finish (⟨A, fiber⟩ :: rest) values).node) stack,
      holding, calling⟩) :
    (∃ m exit next, n ≤ m ∧ m ≤ next ∧ next ≤ last ∧ (run m).heap.poll fiber.id = some exit ∧
        (strands m).place = .active (.value ⟨.exit A, exit.recover A⟩)
          (joining finish A rest values stack) ∧
        ((∃ value, exit.recover A = .success value ∧ strands next =
            ⟨.active (.node (joinAll finish rest (values ++ [⟨A, value⟩])).node) stack, holding,
              false⟩) ∨
          ∃ cause, exit.recover A = .failure cause ∧
            (strands next).place.Reaches stack (.failure cause))) ∨
      Pending run id last (⟨A, fiber⟩ :: rest) (strands last).place := by
  -- It comes to the await, then to the exit, then to what it makes of the exit.
  rcases fed.leads undue low high (starts ▸ leads_joinAll fiber calling) with
    ⟨m, low₁, high₁, asks⟩ | ⟨next, silent⟩
  · rcases follows.awaits h tame observation unshared fed undue (low.trans low₁) high₁
      (h.knows_stays low₁ knows) asks with
      ⟨k, exit, calling', low₂, high₂, _, ended, comes⟩ | awaits
    · have le : n ≤ k := low₁.trans low₂
      have place := congrArg Strand.place comes
      cases outcome : exit.recover A with
      | success value =>
        rw [outcome] at comes place
        refine (fed.leads undue (low.trans le) high₂
          (comes ▸ leads_joined value calling')).imp ?_ fun ⟨next, silent⟩ => .of_silent silent
        rintro ⟨l, low₃, high₃, goes⟩
        exact ⟨k, exit, l, le, low₃, high₃, ended, outcome ▸ place, .inl ⟨value, outcome, goes⟩⟩
      | failure cause =>
        rw [outcome] at comes place
        -- A cause skips the joins that are left.
        obtain ⟨continuation, leads⟩ := leads_failed cause calling'
        refine (fed.leads undue (low.trans le) high₂ (comes ▸ leads)).imp ?_
          fun ⟨next, silent⟩ => .of_silent silent
        rintro ⟨l, low₃, high₃, fails⟩
        have reaches : (strands l).place.Reaches stack (.failure cause) := by
          rw [fails]
          exact .cause cause [continuation]
        exact ⟨k, exit, l, le, low₃, high₃, ended, outcome ▸ place,
          .inr ⟨cause, outcome, reaches⟩⟩
    · exact .inr ⟨awaits.unreached, fun _ _ _ => ⟨_, List.mem_cons_self, _, awaits⟩⟩
  · exact .inr (.of_silent silent)

/-- A fiber that joins others has what comes of it, or is pending. -/
theorem Follows.joins (follows : Follows run id strands first last) (h : Run run)
    (tame : Tame run) (observation : Observation run) (unshared : Unshared run id)
    (fed : Fed strands feed first last)
    (undue : ∀ n, first ≤ n → n ≤ last → (strands n).holding.flags.shouldInterrupt = false)
    {fibers : List ((A : Ty) × Fiber A)} {values : List Erased} (low : first ≤ n) (high : n ≤ last)
    (known : ∀ fiber ∈ fibers, (run n).heap.Knows fiber.2.id)
    (starts : strands n = ⟨.active (.node (joinAll finish fibers values).node) stack, holding,
      calling⟩) :
    (∃ m result, m ≤ last ∧ Joins run strands fibers n m result ∧
        (strands m).place.Receives finish stack (result.map (values ++ ·))) ∨
      Pending run id last fibers (strands last).place := by
  induction fibers generalizing n values calling with
  | nil =>
    refine .inl ⟨n, .ok [], high, .nil le_rfl, ?_⟩
    rw [starts]
    simp [Place.Receives, Except.map, joinAll]
  | cons fiber rest ih =>
    obtain ⟨A, fiber⟩ := fiber
    rcases follows.join h tame observation unshared fed undue low high
      (known _ List.mem_cons_self) starts with
      ⟨m, exit, next, low₁, low₂, high₁, ended, comes, goes⟩ | pending
    · rcases goes with ⟨value, success, goes⟩ | ⟨cause, failure, reaches⟩
      · have later : n ≤ next := low₁.trans low₂
        rcases ih (low.trans later) high₁ (fun fiber mem =>
          h.knows_stays later (known fiber (List.mem_cons_of_mem _ mem))) goes with
          ⟨m', result, le, joins, receives⟩ | pending
        · refine .inl ⟨m', _, le, .value low₁ ended comes success low₂ joins, ?_⟩
          cases result with
          | ok others => simpa [Except.map] using receives
          | error cause => exact receives
        · exact .inr (pending.mono (List.subset_cons_self _ _))
      · exact .inl ⟨next, _, high₁, .cause low₁ ended comes failure low₂, reaches⟩
    · exact .inr pending

/-! ### Forking all -/

variable {effects : List ((A : Ty) × Effect σ A)} {fibers : List ((A : Ty) × Fiber A)}

/-- A fiber has forked an effect, and has a handle on the child. -/
def Forked (run : Nat → World σ) (id : FiberId) (first last : Nat)
    (effect : (A : Ty) × Effect σ A) (child : (A : Ty) × Fiber A) : Prop :=
  child.1 = effect.1 ∧ ∃ n, first ≤ n ∧ n < last ∧ Forks run id child.2.id effect.2.node n

theorem Forked.mono {effect : (A : Ty) × Effect σ A} {child : (A : Ty) × Fiber A}
    {first' last' : Nat} (forked : Forked run id first last effect child) (low : first' ≤ first)
    (high : last ≤ last') : Forked run id first' last' effect child := by
  obtain ⟨type, n, low', high', forks⟩ := forked
  exact ⟨type, n, low.trans low', high'.trans_le high, forks⟩

theorem Forked.knows {effect : (A : Ty) × Effect σ A} {child : (A : Ty) × Fiber A}
    (forked : Forked run id first last effect child) (h : Run run) :
    (run last).heap.Knows child.2.id := by
  obtain ⟨_, n, _, high, forks⟩ := forked
  exact h.knows_stays high forks.knows

/-- A fiber that forks others has all their handles, or is on its way. -/
theorem Follows.forkAll (follows : Follows run id strands first last) (h : Run run)
    (tame : Tame run) (fed : Fed strands feed first last)
    (undue : ∀ n, first ≤ n → n ≤ last → (strands n).holding.flags.shouldInterrupt = false)
    {next : List ((A : Ty) × Fiber A) → Effect σ B} (low : first ≤ n) (high : n ≤ last)
    (starts : strands n = ⟨.active (.node (forkAll next effects fibers).node) stack, holding,
      calling⟩) :
    (∃ m calling' children, n ≤ m ∧ m ≤ last ∧ List.Forall₂ (Forked run id n m) effects children ∧
        strands m = ⟨.active (.node (next (fibers ++ children)).node) stack, holding, calling'⟩) ∨
      Pending run id last [] (strands last).place := by
  induction effects generalizing n fibers calling with
  | nil =>
    refine .inl ⟨n, calling, [], le_rfl, high, .nil, ?_⟩
    rw [starts, List.append_nil]
    rfl
  | cons effect effects ih =>
    obtain ⟨A, effect⟩ := effect
    -- It comes to the fork of the first effect, forks it, and goes on with the others.
    rcases fed.leads undue low high (starts ▸ leads_forkAll effect calling) with
      ⟨m, low₁, high₁, forks⟩ | ⟨next, silent⟩
    · rcases follows.forks h tame fed undue (low.trans low₁) high₁ forks with
        ⟨k, child, low₂, high₂, _, forked, goes⟩ | resting
      · have later : n ≤ k + 1 := low₁.trans (Nat.le_succ_of_le low₂)
        rcases fed.leads undue (low.trans later) high₂ (goes ▸ leads_forked child true) with
          ⟨l, low₃, high₃, goes⟩ | ⟨next, silent⟩
        · rcases ih (low.trans (later.trans low₃)) high₃ goes with
            ⟨m', calling', children, low₄, high₄, others, goes⟩ | pending
          -- The new child comes first, whatever the others have been forked to.
          · refine .inl ⟨m', calling', ⟨A, ⟨child⟩⟩ :: children,
              later.trans (low₃.trans low₄), high₄, .cons ?_ ?_, ?_⟩
            · exact ⟨rfl, k, low₁.trans low₂, Nat.lt_of_succ_le (low₃.trans low₄), forked⟩
            · exact others.imp fun _ _ forked => forked.mono (later.trans low₃) le_rfl
            · rw [goes, List.append_assoc]
              rfl
          · exact .inr pending
        · exact .inr (.of_silent silent)
      · rw [resting]
        exact .inr ⟨fun _ => nofun, nofun⟩
    · exact .inr (.of_silent silent)

/-! ### Everything has run -/

/-- Nothing is under way, and nothing waits to be run. -/
structure Rested (world : World σ) : Prop where
  threads : ∀ thread ∈ world.threads, thread.control = [] ∧ thread.pending = none
  tasks : ∀ executor ∈ world.heap.executors, executor.waiting.toList = []
  seeds : ∀ fiber ∈ world.heap.fibers, fiber.seed = none

/-- Who is still there when everything has run waits for a callback. -/
theorem Rested.suspended {world : World σ} (rested : world.Rested) {place : Place σ}
    (there : place ∈ world.places id) : ∃ callback stack, place = .suspended callback stack := by
  rw [World.places, Heap.places, Multiset.mem_add, Multiset.mem_add, Multiset.mem_add] at there
  rcases there with ((seed | task) | suspension) | onThread
  · obtain ⟨index, fiber, present, mem⟩ := exists_mem_of_mem_tally seed
    have none := rested.seeds fiber (Array.mem_of_getElem? present)
    simp [FiberState.places, none] at mem
  · obtain ⟨index, executor, present, mem⟩ := exists_mem_of_mem_tally task
    have none := rested.tasks executor (Array.mem_of_getElem? present)
    simp [Executor.places, none] at mem
  · obtain ⟨index, suspension, _, mem⟩ := exists_mem_of_mem_tally suspension
    rw [Suspension.places] at mem
    split at mem
    · split at mem
      · exact ⟨_, _, Multiset.mem_singleton.mp mem⟩
      · simp at mem
    · simp at mem
  · obtain ⟨thread, known, mem⟩ := exists_mem_of_mem_sum onThread
    obtain ⟨idle, nothing⟩ := rested.threads thread known
    simp [Thread.places, idle, nothing, queuedPlaces] at mem

/-- Who is pending when everything has run waits for a fiber that has not ended. -/
theorem Pending.exists_running {place : Place σ} (pending : Pending run id n fibers place)
    (h : Run run) (tame : Tame run) (observation : Observation run)
    (there : (run n).places id = {place}) (rested : (run n).Rested) :
    ∃ fiber ∈ fibers, (run n).heap.poll fiber.2.id = none := by
  obtain ⟨callback, stack, waits⟩ := rested.suspended (there ▸ Multiset.mem_singleton_self place)
  obtain ⟨fiber, mem, frames, awaits⟩ := pending.waits callback stack waits
  refine ⟨fiber, mem, ?_⟩
  cases ended : (run n).heap.poll fiber.2.id with
  | none => rfl
  | some exit =>
    obtain ⟨thread, known, left, busy, _⟩ := awaits.told h tame observation there waits ended
    rw [(rested.threads thread known).1] at busy
    cases busy

/-! ### The result -/

theorem Settled.mono (settled : Settled run id first last) {last' : Nat} (high : last' ≤ last) :
    Settled run id first last' :=
  settled.imp_left fun unrequested n low high' => unrequested n low (high'.trans high)

/-- The last moment at which a fiber is there. -/
theorem exists_last_there (there : (run first).places id ≠ 0) (le : first ≤ last) :
    ∃ m, first ≤ m ∧ m ≤ last ∧ (run m).places id ≠ 0 ∧
      (m = last ∨ m < last ∧ (run (m + 1)).places id = 0) := by
  induction last, le using Nat.le_induction with
  | base => exact ⟨first, le_rfl, le_rfl, there, .inl rfl⟩
  | succ last le ih =>
    obtain ⟨m, low, high, there, rfl | gone⟩ := ih
    · by_cases still : (run (m + 1)).places id = 0
      · exact ⟨m, low, m.le_succ, there, .inr ⟨m.lt_succ_self, still⟩⟩
      · exact ⟨m + 1, Nat.le_succ_of_le low, le_rfl, still, .inl rfl⟩
    · exact ⟨m, low, Nat.le_succ_of_le high, there, .inr ⟨Nat.lt_succ_of_lt gone.1, gone.2⟩⟩

theorem getElem?_of_forall₂ {α β : Type _} {R : α → β → Prop} {as : List α} {bs : List β}
    (h : List.Forall₂ R as bs) (k : Nat) :
    as[k]? = none ∧ bs[k]? = none ∨ ∃ a b, as[k]? = some a ∧ bs[k]? = some b ∧ R a b := by
  induction h generalizing k with
  | nil => exact .inl ⟨rfl, rfl⟩
  | cons own _ ih =>
    cases k with
    | zero => exact .inr ⟨_, _, rfl, rfl, own⟩
    | succ k => exact ih k

/-- The children that are joined agree with the exits of their effects. -/
theorem agrees_of_forked {children : List ((A : Ty) × Fiber A)} {m : Nat} {world : World σ}
    (forked : List.Forall₂ (Forked run id first m) effects children) {exits : Nat → Exit Erased}
    (own : ∀ k child exit, children[k]? = some child →
      world.heap.poll child.2.id = some exit → exit = exits k) (order : List Nat) :
    List.Forall₂ world.Agrees (order.filterMap (children[·]?))
      (order.filterMap fun k => effects[k]?.map fun effect => (effect.1, exits k)) := by
  induction order with
  | nil => exact .nil
  | cons k order ih =>
    rcases getElem?_of_forall₂ forked k with ⟨none, none'⟩ | ⟨effect, child, some, some', type, _⟩
    · simpa [none, none'] using ih
    · simp only [List.filterMap_cons, some, some', Option.map_some]
      exact .cons ⟨type, fun exit ended => own k child exit some' ended⟩ ih

/-- A fiber that has forked others and joins them, in whatever order, goes on with their values in
the order of the joins, or with the cause of the first one in this order that failed, whatever ran
when and where. Only if a child has not ended, or something has not run, it may still be pending;
and it may have been dropped with a task. -/
theorem fork_join (h : Run run) (fresh : (run 0).Fresh)
    (willing : ∀ n executor, (run n).heap.refusal? executor = none) (unshared : Unshared run id)
    {order : List Nat}
    (starts : (run first).scene.Shows id
      ⟨.active (.node (forkJoin effects order finish).node) stack, holding, calling⟩)
    (le : first ≤ last) (settled : Settled run id first last) :
    ∃ strands children moment, first ≤ moment ∧ moment ≤ last ∧
      Follows run id strands first moment ∧
      List.Forall₂ (Forked run id first moment) (effects.take children.length) children ∧
      (children.length = effects.length ∧
          (∃ result, Joins run strands (order.filterMap (children[·]?)) first moment result ∧
            (strands moment).place.Receives finish stack result ∧
            ∀ exits : Nat → Exit Erased,
              (∀ k child exit, children[k]? = some child →
                (run last).heap.poll child.2.id = some exit → exit = exits k) →
              result = gather
                (order.filterMap fun k => effects[k]?.map fun effect => (effect.1, exits k))) ∨
        moment < last ∧ Lost run id (moment + 1) ∨
        moment = last ∧ ((run last).Rested →
          ∃ child ∈ children, (run last).heap.poll child.2.id = none)) := by
  have tame := h.tame fresh willing
  have observation := completion_observed h fresh willing
  have there : (run first).places id ≠ 0 := by
    rw [show (run first).places id = _ from starts.place]
    exact Multiset.singleton_ne_zero _
  obtain ⟨latest, low, high, there', ends⟩ := exists_last_there there le
  obtain ⟨strands, begins, follows⟩ := h.exists_follows starts low there'
  obtain ⟨⟨feed, fed⟩, undue⟩ := follows.fed h low (settled.mono high)
  have place := (follows.seen latest low le_rfl).place
  -- Who is pending is lost in the next step, or the stretch ends here.
  have pends {children : List ((A : Ty) × Fiber A)}
      (pending : Pending run id latest children (strands latest).place) :
      latest < last ∧ Lost run id (latest + 1) ∨ latest = last ∧ ((run last).Rested →
        ∃ child ∈ children, (run last).heap.poll child.2.id = none) := by
    rcases ends with rfl | ⟨before, gone⟩
    · exact .inr ⟨rfl, pending.exists_running h tame observation place⟩
    · have shows' := follows.seen latest low le_rfl
      rcases shows'.moves (h.owned latest) (h.moves latest) with ⟨next, later, _⟩ | ⟨_, silent⟩
      · exact absurd (later.place.symm.trans gone) (Multiset.singleton_ne_zero _)
      · refine .inl ⟨before, h.lost ((h.moves latest).knows shows'.knows) gone ?_⟩
        exact Option.eq_none_iff_forall_ne_some.mpr fun exit ended =>
          pending.unreached exit (silent exit ended)
  rcases follows.forkAll h tame fed undue le_rfl low begins with
    ⟨m, calling', children, low₁, high₁, forked, goes⟩ | pending
  · have same := forked.length_eq
    -- Only children are joined, and children are known from their forks on.
    have known : ∀ fiber ∈ order.filterMap (children[·]?), (run m).heap.Knows fiber.2.id := by
      intro fiber mem
      obtain ⟨k, _, found⟩ := List.mem_filterMap.mp mem
      rcases getElem?_of_forall₂ forked k with ⟨_, none⟩ | ⟨effect, child, _, some, own⟩
      · cases none.symm.trans found
      · cases some.symm.trans found
        exact own.knows h
    rcases follows.joins h tame observation unshared fed undue low₁ high₁ known goes with
      ⟨k, result, high₂, joins, receives⟩ | pending
    · have low₂ := low₁.trans joins.le
      refine ⟨strands, children, k, low₂, high₂.trans high, ?_, ?_, .inl ⟨same.symm, result, ?_, ?_,
        fun exits own => ?_⟩⟩
      · exact follows.mono le_rfl high₂
      · rw [← same, List.take_length]
        exact forked.imp fun _ _ forked => forked.mono le_rfl joins.le
      · exact joins.since low₁
      · cases result with
        | ok values => exact receives
        | error cause => exact receives
      · refine joins.gather h (agrees_of_forked forked (fun k child exit found ended => ?_) order)
        exact own k child exit found (h.poll_stays (high₂.trans high) ended)
    · refine ⟨strands, children, latest, low, high, follows, ?_, .inr (pends ?_)⟩
      · rw [← same, List.take_length]
        exact forked.imp fun _ _ forked => forked.mono le_rfl high₁
      · refine pending.mono fun fiber mem => ?_
        obtain ⟨k, _, found⟩ := List.mem_filterMap.mp mem
        exact List.mem_of_getElem? found
  · exact ⟨strands, [], latest, low, high, follows, .nil, .inr (pends pending)⟩

/-! ### Two children, joined in the other order -/

/-- Whether the code of an activation uses no callback, or is the registration of a fiber and uses
its own. -/
def keepsTo (id : FiberId) : Activation σ → Bool
  | .loop fiber (.registering callback code) _ =>
    code.uses?.all fun used => used = callback && fiber = id
  | activation => activation.uses?.isNone

theorem loop_of_keepsTo {activation : Activation σ} {callback : CallbackId}
    (keeps : keepsTo id activation = true) (uses : activation.uses? = some callback) :
    ∃ code stack, activation = .loop id (.registering callback code) stack := by
  unfold keepsTo at keeps
  split at keeps
  next fiber own code stack =>
    rw [show code.uses? = some callback from uses] at keeps
    obtain ⟨rfl, rfl⟩ : callback = own ∧ fiber = id := by simpa using keeps
    exact ⟨code, stack, rfl⟩
  next =>
    rw [uses] at keeps
    cases keeps

/-- Whatever goes on in a trial goes on before it comes to rest. -/
theorem StepsAt.of_staged {state : σ} {program : Code σ Unit} {i : Nat} {thread : Thread σ}
    {activation : Activation σ} (idle : (trial state program last).main.control = [])
    (calm : (trial state program last).main.panicking = none)
    (steps : StepsAt (staged state program) n i thread) (next : thread.next? = some activation) :
    ∃ m ≤ last, staged state program n = trial state program m ∧
      thread = (trial state program m).main := by
  cases n with
  | zero =>
    obtain ⟨_, rest, control⟩ := Thread.next?_eq_some_iff.mp next
    have known := List.mem_of_getElem? steps.before
    cases ((fresh_bare state).threads thread known).2.symm.trans control
  | succ n =>
    have known : thread ∈ (trial state program n).threads := List.mem_of_getElem? steps.before
    rw [World.threads, others_trial, List.mem_singleton] at known
    rcases le_total n last with early | later
    · exact ⟨n, early, rfl, known⟩
    · have rest : trial state program n = trial state program last :=
        trial_of_idle idle calm later
      exact ⟨last, le_rfl, rest, rest ▸ known⟩

/-- A trial in which code keeps to the registrations of a fiber until it comes to rest. -/
theorem unshared_staged {state : σ} {program : Code σ Unit}
    (keeps : ∀ n ≤ last, (trial state program n).main.next?.all (keepsTo id) = true)
    (idle : (trial state program last).main.control = [])
    (calm : (trial state program last).main.panicking = none) :
    Unshared (staged state program) id := by
  intro callback _ n i thread activation steps next uses
  obtain ⟨m, le, _, rfl⟩ := steps.of_staged idle calm next
  have kept := keeps m le
  rw [next] at kept
  exact loop_of_keepsTo kept uses

/-- Two values, from fibers that are joined in the other order. -/
def paired : Effect Nat .ints :=
  forkJoin [⟨.int, succeedNow 5⟩, ⟨.int, succeedNow 7⟩] [1, 0] fun values =>
    (succeedNow (values.filterMap fun value => (value.recover .int).toOption) : Effect Nat .ints)

/-- The first exit is waited for, the second one is there, and the values come in the order of the
joins. -/
theorem fork_join_paired :
    let run := staged 0 (launched paired)
    ∃ strands children moment result, Follows run ⟨1⟩ strands 2 moment ∧
      List.Forall₂ (Forked run ⟨1⟩ 2 moment)
        [⟨.int, succeedNow 5⟩, ⟨.int, succeedNow 7⟩] children ∧
      Joins run strands ([1, 0].filterMap (children[·]?)) 2 moment result ∧
      (run 56).heap.poll ⟨1⟩ = some (.success ⟨.ints, [7, 5]⟩) := by
  have running := run_staged 0 (launched paired)
  have inline : ∀ n ≤ 55, ∀ executor ∈ (trial 0 (launched paired) n).heap.executors.toList,
      executor.discipline = .inline := by decide
  have keeps : ∀ n ≤ 55, (trial 0 (launched paired) n).main.next?.all (keepsTo ⟨1⟩) = true := by
    decide
  have quiet : ∀ n ≤ 55, (trial 0 (launched paired) n).heap.isRequested ⟨1⟩ = false := by decide
  have starts : (staged 0 (launched paired) 2).scene.Shows ⟨1⟩
      ⟨.active (.node paired.node) [], ⟨{}, [], ⟨0⟩⟩, false⟩ := shows_trial rfl rfl rfl rfl
  have settled : Settled (staged 0 (launched paired)) ⟨1⟩ 2 56 := by
    refine .inl fun n low high => ?_
    cases n with
    | zero => cases low
    | succ n => exact quiet n (Nat.le_of_succ_le_succ high)
  have rested : (staged 0 (launched paired) 56).Rested := by
    have seeds : ∀ fiber ∈ (trial 0 (launched paired) 55).heap.fibers.toList,
        fiber.seed.isNone = true := by decide
    refine ⟨fun thread known => ?_, fun executor known => ?_, fun fiber known => ?_⟩
    · have known : thread ∈ (trial 0 (launched paired) 55).threads := known
      rw [threads, others_trial, List.mem_singleton] at known
      rw [known]
      exact ⟨rfl, rfl⟩
    · have executors : (staged 0 (launched paired) 56).heap.executors =
          #[{ name := "immediate", discipline := .inline }] := rfl
      rw [executors, Array.mem_singleton] at known
      rw [known]
      rfl
    · exact Option.isNone_iff_eq_none.mp (seeds fiber (Array.mem_toList_iff.mpr known))
  obtain ⟨strands, children, moment, low, high, follows, forked, outcome⟩ :=
    fork_join running (fresh_bare 0) (willing_staged inline rfl rfl)
      (unshared_staged keeps rfl rfl) starts (by decide) settled
  -- The forks are over, no child is lost, and at the end nobody is waited for any more.
  rcases outcome with ⟨same, result, joins, _, _⟩ | ⟨before, lost⟩ | ⟨_, waits⟩
  · rw [same, List.take_length] at forked
    exact ⟨strands, children, moment, result, follows, forked, joins, rfl⟩
  · cases (lost 56 before).2
  · obtain ⟨child, mem, unended⟩ := waits rested
    obtain ⟨k, found⟩ := List.getElem?_of_mem mem
    rcases getElem?_of_forall₂ forked k with ⟨_, none⟩ | ⟨_, _, _, some, own⟩
    · cases found.symm.trans none
    · cases found.symm.trans some
      obtain ⟨index, small, same⟩ := running.knows_stays high (own.knows running)
      have few : (staged 0 (launched paired) 56).heap.fibers.size = 3 := rfl
      rw [few] at small
      rw [same] at unended
      interval_cases index <;> cases unended

end World

end Fibers
