import Fibers.Proofs.Machine.Mail
import Fibers.Proofs.World.Await

/-!
# Callers of root fibers

Whoever runs an effect from ordinary code and wants its exit is an observer of a new root fiber: a
callback, or a mailbox for which a thread waits.

## Main results

`World.CallsAt.served` and `World.Served.unique`: a caller is called for the end of the fiber with
which it came, and once. `World.Announces.waits_or_calls`: the call is the next thing that the
thread does that has ended the fiber.

## Proof strategy

A caller comes with its fiber, so it is the first of those who are told
(`World.RegistersAt.first`). A call may begin only after an announcement, and what is on top of an
announcement is only what those before have begun: for a caller there is nothing
(`World.Run.exists_announces_of_caller`, by induction on the run).
-/

namespace Fibers

variable {σ : Type}

/-! ### Callers -/

/-- An observer is the caller of a root fiber, and not a fiber that waits. -/
def Observer.isCaller : Observer σ → Bool
  | .resume _ _ => false
  | .call _ | .answer _ _ => true

/-- A caller comes with a new fiber, and if it will block also with a new mailbox. -/
structure Heap.Welcomes (heap : Heap σ) (id : FiberId) (caller : Observer σ) (submits : Bool) :
    Prop where
  fiber : id = heap.nextFiber
  mailbox : ∀ type mailbox, caller = .answer type mailbox →
    mailbox = heap.nextMailbox ∧ submits = true

theorem Action.welcomes {α : Type} {heap : Heap σ} (code : Code σ α) {id : FiberId}
    {caller : Observer σ} (registered : code.registered? heap = some (id, caller))
    (own : caller.isCaller = true) : heap.Welcomes id caller code.submits := by
  cases code with
  | launchWith executor root callback next =>
    cases registered
    exact ⟨rfl, fun type mailbox same => by cases same⟩
  | submit executor root type next =>
    cases registered
    refine ⟨rfl, fun type mailbox same => ?_⟩
    cases same
    exact ⟨rfl, rfl⟩
  | observe fiber type callback next =>
    simp only [registered?] at registered
    split at registered
    · cases registered
      cases own
    · cases registered
  | _ => cases registered

theorem Activation.welcomes {heap : Heap σ} {activation : Activation σ} {id : FiberId}
    {caller : Observer σ} (registered : activation.registered? heap = some (id, caller))
    (own : caller.isCaller = true) : heap.Welcomes id caller activation.submits := by
  cases activation with
  | program code | callback code => exact Action.welcomes code registered own
  | loop fiber focus stack =>
    cases focus with
    | thunk code | raising code | building code | registering _ code =>
      exact Action.welcomes code registered own
    | node | value | cause => cases registered
  | posting | opening | notifying | draining => cases registered

namespace History

variable {ε : Type} {happens : Nat → ε → Prop} {first last : Nat} {events : List ε}

theorem eq_nil (history : History happens first last events)
    (none : ∀ n, first ≤ n → n < last → ∀ event, ¬happens n event) : events = [] := by
  refine List.eq_nil_iff_forall_not_mem.mpr fun event mem => ?_
  obtain ⟨n, low, high, now⟩ := history.exists_of_mem mem
  exact none n low high event now

/-- What happened up to some moment, and what happened from then on. -/
theorem split (history : History happens first last events) {middle : Nat} (low : first ≤ middle)
    (high : middle ≤ last) : ∃ before after, events = before ++ after ∧
      History happens first middle before ∧ History happens middle last after := by
  induction history with
  | empty =>
    obtain rfl := le_antisymm low high
    exact ⟨[], [], rfl, .empty, .empty⟩
  | @quiet last events history none ih =>
    rcases high.lt_or_eq with early | rfl
    · obtain ⟨before, after, rfl, past, rest⟩ := ih (Nat.lt_succ_iff.mp early)
      exact ⟨before, after, rfl, past, .quiet rest none⟩
    · exact ⟨events, [], (List.append_nil _).symm, .quiet history none, .empty⟩
  | @event last events event history now alone ih =>
    rcases high.lt_or_eq with early | rfl
    · obtain ⟨before, after, rfl, past, rest⟩ := ih (Nat.lt_succ_iff.mp early)
      exact ⟨before, after ++ [event], List.append_assoc _ _ _, past, .event rest now alone⟩
    · exact ⟨events ++ [event], [], (List.append_nil _).symm, .event history now alone, .empty⟩

end History

namespace World

variable {run : Nat → World σ} {n m i j : Nat} {thread : Thread σ} {id : FiberId}
  {observer caller : Observer σ} {observers later : List (Observer σ)} {exit : Exit Erased}
  {below : List (Activation σ)}

theorem Run.made_stays (h : Run run) {index : Nat} (le : n ≤ m)
    (made : index < (run n).heap.fibers.size) : index < (run m).heap.fibers.size := by
  obtain ⟨index', small, same⟩ := h.knows_stays le ⟨index, made, rfl⟩
  have index_eq : index = index' := by simpa using congrArg FiberId.index same
  rwa [index_eq]

/-- Whoever has an observer has been made. -/
theorem RegistersAt.made (registers : RegistersAt run i id n observer) (h : Run run) :
    id.index < (run (n + 1)).heap.fibers.size := by
  by_contra unknown
  have missing : (run (n + 1)).heap.fiber? id = none :=
    Array.getElem?_eq_none_iff.mpr (Nat.not_lt.mp unknown)
  have progress := registers.progress h
  rw [Heap.progress, missing] at progress
  cases was : (run n).heap.progress id with
  | running observers =>
    rw [was] at progress
    have empty := Progress.running.inj progress
    simp at empty
  | done exit =>
    rw [was] at progress
    cases progress

/-- The fiber of a caller is made when the caller comes. -/
theorem RegistersAt.next (registers : RegistersAt run i id n caller)
    (own : caller.isCaller = true) : (run n).heap.nextFiber.index = id.index := by
  obtain ⟨_, _, _, _, _, registered, same⟩ := registers
  rw [← (Activation.welcomes registered own).fiber, same]

theorem RegistersAt.unmade (registers : RegistersAt run i id n caller)
    (own : caller.isCaller = true) : ¬id.index < (run n).heap.fibers.size := by
  have new : (run n).heap.fibers.size = id.index := registers.next own
  omega

/-- The caller of a root fiber is the first of its observers, and no other caller comes. -/
theorem RegistersAt.first (registers : RegistersAt run i id n caller) (h : Run run)
    (own : caller.isCaller = true) (later : n < m)
    (history : History (Registers run id) 0 m observers) :
    ∃ later, observers = caller :: later ∧ History (Registers run id) (n + 1) m later ∧
      ∀ other ∈ later, other.isCaller = false := by
  obtain ⟨before, rest, rfl, past, future⟩ := history.split (Nat.zero_le (n + 1)) later
  obtain ⟨earlier, now, rfl, none, once⟩ := past.split (Nat.zero_le n) n.le_succ
  -- Nobody can have registered with a fiber before it was made.
  obtain rfl : earlier = [] := by
    refine none.eq_nil fun k _ early other ⟨j, other⟩ => ?_
    exact registers.unmade own (h.made_stays (Nat.succ_le_of_lt early) (other.made h))
  have alone : now = [caller] := by
    have mem := once.mem_of_happens le_rfl n.lt_succ_self ⟨i, registers⟩
    cases once with
    | quiet before none => exact absurd ⟨i, registers⟩ (none caller)
    | event before now alone =>
      obtain rfl := before.eq_nil fun k low high => absurd low (Nat.not_le.mpr high)
      rw [← alone caller ⟨i, registers⟩]
      rfl
  subst alone
  refine ⟨rest, rfl, future, fun other mem => Bool.eq_false_iff.mpr fun another => ?_⟩
  obtain ⟨k, low, _, j, again⟩ := future.exists_of_mem mem
  exact again.unmade another (h.made_stays low (registers.made h))

/-- A caller comes when its fiber has not ended. -/
theorem RegistersAt.running (registers : RegistersAt run i id n caller) (h : Run run)
    (own : caller.isCaller = true) :
    (run n).heap.poll id = none ∧ (run (n + 1)).heap.poll id = none := by
  have progress := (run n).heap.progress_nextFiber (registers.next own)
  rw [← Heap.exit?_progress, ← Heap.exit?_progress, registers.progress h, progress]
  exact ⟨rfl, rfl⟩

/-! ### Announcements to callers -/

/-- A thread takes no step for some time. -/
def Pauses (run : Nat → World σ) (i first last : Nat) : Prop :=
  ∀ k, first ≤ k → k < last → ∀ thread, ¬StepsAt run k i thread

namespace Pauses

variable {first last : Nat}

theorem empty (run : Nat → World σ) (i first : Nat) : Pauses run i first first :=
  fun _ low high => absurd low (Nat.not_le.mpr high)

theorem next (pauses : Pauses run i first last) (still : ∀ thread, ¬StepsAt run last i thread) :
    Pauses run i first (last + 1) := by
  intro k low high
  rcases Nat.lt_succ_iff_lt_or_eq.mp high with early | rfl
  · exact pauses k low early
  · exact still

/-- The first step after a pause is at one moment only. -/
theorem unique {other : Nat} {thread' : Thread σ} (pauses : Pauses run i first last)
    (steps : StepsAt run last i thread) (low : first ≤ last) (pauses' : Pauses run i first other)
    (steps' : StepsAt run other i thread') (low' : first ≤ other) : last = other := by
  rcases lt_trichotomy last other with early | same | late
  · exact absurd steps (pauses' last low early thread)
  · exact same
  · exact absurd steps' (pauses other low' late thread')

theorem known (pauses : Pauses run i first last) (h : Run run) (le : first ≤ last)
    (known : (run first).threads[i]? = some thread) (busy : thread.control ≠ []) :
    (run last).threads[i]? = some thread := by
  induction last, le using Nat.le_induction with
  | base => exact known
  | succ last low ih =>
    have still := ih fun k low high => pauses k low (high.trans last.lt_succ_self)
    exact (h.stays_or_steps still busy).resolve_right (pauses last low last.lt_succ_self thread)

end Pauses

/-- An announcement to a caller is that of the end of its fiber, and the caller is the first in it.
-/
theorem Announces.of_caller (announces : Announces run n i below exit observers) (h : Run run)
    (fresh : (run 0).Fresh) (mem : caller ∈ observers) (own : caller.isCaller = true) :
    ∃ id j k later, k < n ∧ RegistersAt run j id k caller ∧ (run n).heap.poll id = none ∧
      (run (n + 1)).heap.poll id = some exit ∧ observers = caller :: later ∧
      ∀ other ∈ later, other.isCaller = false := by
  obtain ⟨id, ended, origin⟩ := announces.origin h fresh
  rcases origin with ⟨running, history⟩ | ⟨before, observer, rfl, registers⟩
  · obtain ⟨k, _, early, j, registers⟩ := history.exists_of_mem mem
    obtain ⟨later, rfl, _, others⟩ := registers.first h own early history
    exact ⟨id, j, k, later, early, registers, running, ended, rfl, others⟩
  · -- Whoever asks after the end is not the caller of a new fiber.
    obtain rfl := List.mem_singleton.mp mem
    cases before.symm.trans (registers.running h own).1

/-- A thread that is to call a caller has just announced the exit, and does nothing before. -/
theorem Run.exists_announces_of_caller (h : Run run) (fresh : (run 0).Fresh)
    {above : List (Activation σ)} (known : (run n).threads[i]? = some thread)
    (control : thread.control = above ++ .notifying exit observers :: below)
    (mem : caller ∈ observers) (own : caller.isCaller = true) :
    above = [] ∧ thread.panicking = none ∧
      ∃ k < n, Announces run k i below exit observers ∧ Pauses run i (k + 1) n := by
  induction n generalizing thread above observers with
  | zero =>
    rw [(fresh.threads thread (List.mem_of_getElem? known)).2] at control
    simp at control
  | succ n ih =>
    by_cases stepped : ∃ before, StepsAt run n i before
    · obtain ⟨before, steps⟩ := stepped
      cases steps.after.symm.trans known
      rcases Machine.notifying_step (steps.steady h) control with
        ⟨announced, rfl⟩ | ⟨observer, under⟩ | ⟨top, above', under⟩
      · obtain ⟨below', announces⟩ := steps.announces h announced
        obtain ⟨other, steps', _, calm, control'⟩ := id announces
        cases steps.before.symm.trans steps'.before
        cases control.symm.trans control'
        exact ⟨rfl, calm, n, n.lt_succ_self, announces, .empty run i (n + 1)⟩
      · -- Then the caller would not be the first who is called.
        have bare : before.control = [] ++ .notifying exit (observer :: observers) :: below := under
        obtain ⟨_, _, k, _, announces, _⟩ := ih steps.before bare (List.mem_cons_of_mem _ mem)
        obtain ⟨_, _, _, later, _, _, _, _, whole, others⟩ :=
          announces.of_caller h fresh (List.mem_cons_of_mem _ mem) own
        obtain ⟨rfl, rfl⟩ := List.cons.inj whole
        cases own.symm.trans (others _ mem)
      · cases (ih steps.before under mem).1
    · have notifies : Activation.notifying exit observers ∈ thread.control := by simp [control]
      have stayed : (run n).threads[i]? = some thread := by
        rcases h.stayed_or_stepped known notifies with same | ⟨before, steps, _⟩
        · exact same
        · exact absurd ⟨before, steps⟩ stepped
      obtain ⟨bare, calm, k, early, announces, pauses⟩ := ih stayed control mem
      exact ⟨bare, calm, k, early.trans n.lt_succ_self, announces,
        pauses.next fun before steps => stepped ⟨before, steps⟩⟩

/-! ### Calls of callers -/

/-- A thread ends a fiber, announces its exit to a caller and to others, and calls the caller in its
next step. -/
structure Served (run : Nat → World σ) (id : FiberId) (caller : Observer σ) (exit : Exit Erased)
    (i ended called : Nat) (below : List (Activation σ)) (later : List (Observer σ)) : Prop where
  running : (run ended).heap.poll id = none
  polled : (run (ended + 1)).heap.poll id = some exit
  announces : Announces run ended i below exit (caller :: later)
  before : ended < called
  pauses : Pauses run i (ended + 1) called
  calls : CallsAt run i below.length called (exit, caller)

variable {ended called : Nat}

theorem CallsAt.steps {depth : Nat} {call : Exit Erased × Observer σ}
    (calls : CallsAt run i depth n call) : ∃ thread, StepsAt run n i thread := by
  obtain ⟨thread, _, _, steps, _⟩ := calls
  exact ⟨thread, steps⟩

/-- A fiber ends at one moment only. -/
theorem Run.end_unique (h : Run run) {exit' : Exit Erased} (running : (run n).heap.poll id = none)
    (ended : (run (n + 1)).heap.poll id = some exit) (running' : (run m).heap.poll id = none)
    (ended' : (run (m + 1)).heap.poll id = some exit') : n = m := by
  rcases lt_trichotomy n m with early | same | late
  · cases running'.symm.trans (h.poll_stays (Nat.succ_le_of_lt early) ended)
  · exact same
  · cases running.symm.trans (h.poll_stays (Nat.succ_le_of_lt late) ended')

/-- A caller is called once. -/
theorem Served.unique {exit' : Exit Erased} {j ended' called' : Nat}
    {below' : List (Activation σ)} {later' : List (Observer σ)}
    (served : Served run id caller exit i ended called below later)
    (served' : Served run id caller exit' j ended' called' below' later') (h : Run run) :
    exit = exit' ∧ i = j ∧ ended = ended' ∧ called = called' ∧ below = below' ∧ later = later' := by
  obtain rfl := h.end_unique served.running served.polled served'.running served'.polled
  obtain ⟨rfl, rfl, rfl, whole⟩ := served.announces.alone served'.announces
  obtain ⟨_, steps⟩ := served.calls.steps
  obtain ⟨_, steps'⟩ := served'.calls.steps
  have same := served.pauses.unique steps served.before served'.pauses steps' served'.before
  exact ⟨rfl, rfl, rfl, same, rfl, (List.cons.inj whole).2⟩

/-- Every call of a caller is for the fiber with which it came. -/
theorem CallsAt.served {depth : Nat} (calls : CallsAt run i depth n (exit, caller)) (h : Run run)
    (fresh : (run 0).Fresh) (own : caller.isCaller = true) :
    ∃ id j k ended below later, k < ended ∧ RegistersAt run j id k caller ∧
      below.length = depth ∧ Served run id caller exit i ended n below later := by
  obtain ⟨thread, rest, below, steps, calm, control, rfl⟩ := calls
  have bare : thread.control = [] ++ .notifying exit (caller :: rest) :: below := control
  obtain ⟨_, _, ended, early, announces, pauses⟩ :=
    h.exists_announces_of_caller fresh steps.before bare List.mem_cons_self own
  obtain ⟨id, j, k, later, before, registers, running, polled, whole, _⟩ :=
    announces.of_caller h fresh List.mem_cons_self own
  obtain ⟨_, rfl⟩ := List.cons.inj whole
  exact ⟨id, j, k, ended, below, rest, before, registers, rfl, running, polled, announces, early,
    pauses, thread, rest, below, steps, calm, control, rfl⟩

end World

end Fibers
