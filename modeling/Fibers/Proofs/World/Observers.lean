import Fibers.Proofs.World.Containment

/-!
# Who is told of an exit

A fiber that ends tells its exit to those who have asked for it, and whoever asks later is told at
once. Observers are called one after another, and a call may do anything: register other observers,
end other fibers, run whole loops, or panic.

## Main results

`World.completion_observed`: if no executor refuses a task, every observer of a fiber is called
exactly once, in the order of registration, with the one exit of the fiber, and not before the fiber
has ended.

## Proof strategy

An exit that is announced is one activation with all the observers that are still to be called. What
is under it stays as it is (`Machine.control_step`), so its place on the thread is known by the
number of activations below, and the calls from this place are exactly the observers in turn.
-/

namespace Fibers

variable {σ : Type}

/-- All that happened from one moment up to another, in order. -/
inductive History {ε : Type} (happens : Nat → ε → Prop) (first : Nat) : Nat → List ε → Prop where
  | empty : History happens first first []
  | quiet {last : Nat} {events : List ε} (before : History happens first last events)
      (none : ∀ event, ¬happens last event) : History happens first (last + 1) events
  | event {last : Nat} {events : List ε} {event : ε} (before : History happens first last events)
      (now : happens last event) (alone : ∀ other, happens last other → other = event) :
      History happens first (last + 1) (events ++ [event])

namespace World

variable {run : Nat → World σ} {n i : Nat} {thread : Thread σ}

/-! ### Registrations and calls -/

/-- A thread registers an observer of a fiber. -/
def RegistersAt (run : Nat → World σ) (i : Nat) (id : FiberId) (n : Nat)
    (observer : Observer σ) : Prop :=
  ∃ thread activation target, StepsAt run n i thread ∧ thread.next? = some activation ∧
    activation.registered? (run n).heap = some (target, observer) ∧ target.index = id.index

/-- Some thread registers an observer of a fiber. -/
def Registers (run : Nat → World σ) (id : FiberId) (n : Nat) (observer : Observer σ) : Prop :=
  ∃ i, RegistersAt run i id n observer

/-- A thread hands an exit to an observer, on top of so many other activations. -/
def CallsAt (run : Nat → World σ) (i depth n : Nat) (call : Exit Erased × Observer σ) : Prop :=
  ∃ thread rest below, StepsAt run n i thread ∧ thread.panicking = none ∧
    thread.control = .notifying call.1 (call.2 :: rest) :: below ∧ below.length = depth

/-- A thread announces an exit to some observers, on top of everything else. -/
def Announces (run : Nat → World σ) (n i : Nat) (below : List (Activation σ)) (exit : Exit Erased)
    (observers : List (Observer σ)) : Prop :=
  ∃ thread, StepsAt run n i thread ∧ thread.announced? (run n).heap = some (exit, observers) ∧
    (Machine.step (run n).heap thread).2.panicking = none ∧
    (Machine.step (run n).heap thread).2.control = .notifying exit observers :: below

variable {id : FiberId} {exit : Exit Erased} {observer : Observer σ} {observers : List (Observer σ)}
  {below : List (Activation σ)}

/-! ### Progress through a run -/

theorem StepsAt.progress (steps : StepsAt run n i thread) (h : Run run) (id : FiberId) :
    (run (n + 1)).heap.progress id =
      match thread.next? with
      | some activation => (run n).heap.progressAfter activation id
      | none => (run n).heap.progress id := by
  rw [steps.heap]
  exact Machine.progress_step (steps.steady h) id

theorem Run.poll_stays (h : Run run) {m : Nat} (later : n ≤ m)
    (ended : (run n).heap.poll id = some exit) : (run m).heap.poll id = some exit := by
  induction m, later using Nat.le_induction with
  | base => exact ended
  | succ m _ ih => exact (h.owned m).exit_kept (h.moves m) ih

theorem RegistersAt.progress (registers : RegistersAt run i id n observer) (h : Run run) :
    (run (n + 1)).heap.progress id = ((run n).heap.progress id).register observer := by
  obtain ⟨thread, activation, target, steps, next, registered, own⟩ := registers
  rw [steps.progress h id, next]
  exact Heap.progressAfter_of_registered registered own

theorem RegistersAt.observers_eq (registers : RegistersAt run i id n observer) (h : Run run)
    (running : (run n).heap.poll id = none) :
    (run (n + 1)).heap.observers id = (run n).heap.observers id ++ [observer] := by
  rw [Heap.observers, registers.progress h]
  exact Progress.observers_register observer (((run n).heap.exit?_progress id).trans running)

/-- In one step a fiber stays as it is, has one more observer, or ends and is announced. -/
theorem Run.progress_cases (h : Run run) (n : Nat) (id : FiberId) :
    (run (n + 1)).heap.progress id = (run n).heap.progress id ∨
      (∃ observer, Registers run id n observer) ∨
      ∃ i thread exit, StepsAt run n i thread ∧
        thread.announced? (run n).heap = some (exit, (run n).heap.observers id) ∧
        (run (n + 1)).heap.progress id = .done exit := by
  rcases h.steps_or_rests n with ⟨i, thread, steps⟩ | ⟨fibers, _⟩
  · have progress := steps.progress h id
    cases next : thread.next? with
    | none =>
      rw [next] at progress
      exact .inl progress
    | some activation =>
      simp only [next, Heap.progressAfter] at progress
      cases ends : activation.ends? with
      | some ending =>
        obtain ⟨ended, exit⟩ := ending
        simp only [ends] at progress
        split at progress
        next own =>
          refine .inr (.inr ⟨i, thread, exit, steps, ?_, progress⟩)
          simp [Thread.announced?, next, Heap.announced?, ends, Heap.observers,
            (run n).heap.progress_congr own]
        next => exact .inl progress
      | none =>
        simp only [ends] at progress
        cases registered : activation.registered? (run n).heap with
        | none =>
          rw [registered] at progress
          exact .inl progress
        | some registration =>
          obtain ⟨target, observer⟩ := registration
          simp only [registered, Heap.progressWith] at progress
          split at progress
          next own =>
            exact .inr (.inl ⟨observer, i, thread, activation, target, steps, next, registered,
              own⟩)
          next => exact .inl progress
  · exact .inl (Heap.progress_of_fibers fibers id)

/-- Those who wait for a fiber are those who have asked for its exit so far, in this order. -/
theorem Run.registrations (h : Run run) (fresh : (run 0).Fresh)
    (running : (run n).heap.poll id = none) :
    History (Registers run id) 0 n ((run n).heap.observers id) := by
  induction n with
  | zero =>
    have nobody : (run 0).heap.observers id = [] := by
      simp [Heap.observers, Heap.progress, Heap.fiber?, fresh.fibers, Progress.observers]
    rw [nobody]
    exact .empty
  | succ n ih =>
    have before : (run n).heap.poll id = none := by
      cases ended : (run n).heap.poll id with
      | none => rfl
      | some exit => cases running.symm.trans (h.poll_stays n.le_succ ended)
    -- Two observers cannot come in one step, since both would be the last in the list.
    by_cases now : ∃ observer, Registers run id n observer
    · obtain ⟨observer, i, registers⟩ := now
      rw [registers.observers_eq h before]
      refine .event (ih before) ⟨i, registers⟩ ?_
      rintro other ⟨j, registers'⟩
      have same := (registers'.observers_eq h before).symm.trans (registers.observers_eq h before)
      exact List.singleton_inj.mp (List.append_cancel_left same)
    · rcases h.progress_cases n id with same | now' | ⟨_, _, exit, _, _, done⟩
      · rw [Heap.observers, same]
        exact .quiet (ih before) fun observer registers => now ⟨observer, registers⟩
      · exact absurd now' now
      · rw [← Heap.exit?_progress, done] at running
        cases running

/-! ### Announcements -/

theorem StepsAt.announces (steps : StepsAt run n i thread) (h : Run run)
    (announced : thread.announced? (run n).heap = some (exit, observers)) :
    ∃ below, Announces run n i below exit observers := by
  obtain ⟨activation, next, told⟩ := Option.bind_eq_some_iff.mp announced
  obtain ⟨calm, rest, control⟩ := Thread.next?_eq_some_iff.mp next
  obtain ⟨own, calm', control'⟩ :=
    (Machine.advanced_step (steps.steady h) calm control).announces told
  exact ⟨_, thread, steps, announced, calm', control'⟩

/-- A fiber that ends is announced to all who have asked for its exit before. -/
theorem Run.announces_end (h : Run run) (fresh : (run 0).Fresh)
    (running : (run n).heap.poll id = none) (ended : (run (n + 1)).heap.poll id = some exit) :
    ∃ observers, History (Registers run id) 0 n observers ∧
      ∃ i below, Announces run n i below exit observers := by
  refine ⟨_, h.registrations fresh running, ?_⟩
  rw [← Heap.exit?_progress] at running ended
  rcases h.progress_cases n id with same | ⟨observer, i, registers⟩ |
    ⟨i, thread, last, steps, announced, done⟩
  · rw [same, running] at ended
    cases ended
  · rw [registers.progress h, Progress.exit?_register, running] at ended
    cases ended
  · rw [done] at ended
    cases ended
    exact ⟨i, steps.announces h announced⟩

theorem RegistersAt.announces (registers : RegistersAt run i id n observer) (h : Run run)
    (ended : (run n).heap.poll id = some exit) :
    ∃ below, Announces run n i below exit [observer] := by
  obtain ⟨thread, activation, target, steps, next, registered, own⟩ := registers
  refine steps.announces h ?_
  rw [Thread.announced?, next]
  exact Heap.announced?_of_registered registered own ended

theorem Announces.origin (announces : Announces run n i below exit observers) (h : Run run)
    (fresh : (run 0).Fresh) :
    ∃ id, (run (n + 1)).heap.poll id = some exit ∧
      ((run n).heap.poll id = none ∧ History (Registers run id) 0 n observers ∨
        (run n).heap.poll id = some exit ∧
          ∃ observer, observers = [observer] ∧ RegistersAt run i id n observer) := by
  obtain ⟨thread, steps, announced, _, _⟩ := announces
  obtain ⟨activation, next, told⟩ := Option.bind_eq_some_iff.mp announced
  rcases Heap.announced?_cases told with ⟨id, ends, rfl⟩ | ⟨id, observer, registered, ended, rfl⟩
  · have progress := steps.progress h id
    simp only [next, Heap.progressAfter, ends, if_true] at progress
    obtain ⟨focus, stack, rfl⟩ := Activation.loop_of_ends? ends
    obtain ⟨fiber, present, running⟩ := steps.steady h id focus stack next
    have before : (run n).heap.poll id = none := (Heap.poll_of_fiber? present).trans running
    refine ⟨id, ?_, .inl ⟨before, h.registrations fresh before⟩⟩
    rw [← Heap.exit?_progress, progress]
    rfl
  · exact ⟨id, h.poll_stays n.le_succ ended, .inr ⟨ended, observer, rfl, thread, activation, id,
      steps, next, registered, rfl⟩⟩

theorem Announces.alone {j : Nat} {below' : List (Activation σ)} {exit' : Exit Erased}
    {observers' : List (Observer σ)} (announces : Announces run n i below exit observers)
    (announces' : Announces run n j below' exit' observers') :
    i = j ∧ below = below' ∧ exit = exit' ∧ observers = observers' := by
  obtain ⟨thread, steps, announced, calm, control⟩ := announces
  obtain ⟨thread', steps', announced', _, control'⟩ := announces'
  by_cases own : i = j
  · subst own
    cases steps.before.symm.trans steps'.before
    cases control.symm.trans control'
    exact ⟨rfl, rfl, rfl, rfl⟩
  · -- The announcing thread has changed, so it is the one that has taken a step.
    have still := steps.after.symm.trans ((steps'.elsewhere (Ne.symm own)).trans steps.before)
    rw [Option.some.inj still] at calm control
    rw [Thread.announced?, Thread.next?_eq_some_iff.mpr ⟨calm, _, control⟩] at announced
    cases announced

/-! ### Calls -/

theorem CallsAt.alone {depth depth' : Nat} {call call' : Exit Erased × Observer σ}
    (calls : CallsAt run i depth n call) (calls' : CallsAt run i depth' n call') :
    call = call' := by
  obtain ⟨thread, rest, below, steps, _, control, _⟩ := calls
  obtain ⟨thread', rest', below', steps', _, control', _⟩ := calls'
  cases steps.before.symm.trans steps'.before
  obtain ⟨⟨exit, observer, _⟩, _⟩ :
      (call.1 = call'.1 ∧ call.2 = call'.2 ∧ rest = rest') ∧ below = below' := by
    simpa using control.symm.trans control'
  exact Prod.ext exit observer

theorem CallsAt.length {depth : Nat} {call : Exit Erased × Observer σ}
    (calls : CallsAt run i depth n call) (known : (run n).threads[i]? = some thread) :
    thread.control.length = depth + 1 := by
  obtain ⟨thread', rest, below, steps, _, control, rfl⟩ := calls
  cases known.symm.trans steps.before
  rw [control]
  rfl

/-- What a call does is what its observer is for. -/
theorem CallsAt.notifies {depth : Nat} (calls : CallsAt run i depth n (exit, observer)) :
    ∃ under : Thread σ, (run (n + 1)).heap = (Machine.notify (run n).heap under exit observer).1 ∧
      (run (n + 1)).threads[i]? = some (Machine.notify (run n).heap under exit observer).2 := by
  obtain ⟨thread, rest, below, steps, calm, control, _⟩ := calls
  have step := Machine.step_of_next? (run n).heap calm control
  refine ⟨{ thread with control := .notifying exit rest :: below }, ?_, ?_⟩
  · rw [steps.heap, step]
    rfl
  · rw [steps.after, step]
    rfl

/-- Some of the observers have been called in turn, each with the exit; the others are to come. -/
def Notifying (run : Nat → World σ) (i : Nat) (below : List (Activation σ)) (exit : Exit Erased)
    (observers : List (Observer σ)) (first last : Nat) : Prop :=
  ∃ called left thread above, observers = called ++ left ∧
    History (CallsAt run i below.length) first last (called.map (exit, ·)) ∧
    (run last).threads[i]? = some thread ∧
    thread.control = above ++ .notifying exit left :: below ∧ (above = [] → thread.panicking = none)

/-- All observers have been called in turn, each with the exit, and the thread goes on below. -/
def Notified (run : Nat → World σ) (i : Nat) (below : List (Activation σ)) (exit : Exit Erased)
    (observers : List (Observer σ)) (first last : Nat) : Prop :=
  History (CallsAt run i below.length) first last (observers.map (exit, ·)) ∧
    ∃ thread, (run last).threads[i]? = some thread ∧ thread.control = below

/-- No panic gets past the guards. -/
def Guarded (run : Nat → World σ) : Prop := ∀ n, ∀ thread ∈ (run n).threads, ¬thread.Escaping

theorem Guarded.calm (guarded : Guarded run) (known : (run n).threads[i]? = some thread)
    (control : thread.control = .notifying exit observers :: below) : thread.panicking = none := by
  cases panicking : thread.panicking with
  | none => rfl
  | some payload =>
    refine absurd ⟨?_, _, _, control, rfl⟩ (guarded n thread (List.mem_of_getElem? known))
    rw [panicking]
    rfl

variable {above : List (Activation σ)} {first : Nat}

theorem not_callsAt_of_under (known : (run n).threads[i]? = some thread) {top : Activation σ}
    (control : thread.control = top :: above ++ .notifying exit observers :: below)
    (call : Exit Erased × Observer σ) : ¬CallsAt run i below.length n call := by
  intro calls
  have length := calls.length known
  rw [control, List.length_append, List.length_cons, List.length_cons] at length
  omega

theorem StepsAt.returns (steps : StepsAt run n i thread) (calm : thread.panicking = none)
    (control : thread.control = .notifying exit [] :: below) :
    (Machine.step (run n).heap thread).2.control = below ∧
      ∀ call, ¬CallsAt run i below.length n call := by
  constructor
  · rw [Machine.step_of_next? (run n).heap calm control]
    rfl
  · rintro call ⟨other, rest, under, steps', _, control', _⟩
    cases steps.before.symm.trans steps'.before
    cases control.symm.trans control'

theorem StepsAt.calls (steps : StepsAt run n i thread) (calm : thread.panicking = none)
    (control : thread.control = .notifying exit (observer :: observers) :: below) :
    CallsAt run i below.length n (exit, observer) ∧
      ∃ begun, (Machine.step (run n).heap thread).2.control =
        begun ++ .notifying exit observers :: below := by
  constructor
  · exact ⟨thread, observers, below, steps, calm, control, rfl⟩
  · obtain ⟨begun, _, control'⟩ := (Machine.grows_notify (run n).heap
      { thread with control := .notifying exit observers :: below } exit observer).control
    rw [Machine.step_of_next? (run n).heap calm control]
    exact ⟨begun, control'⟩

theorem Notifying.next (notifying : Notifying run i below exit observers first n) (h : Run run)
    (guarded : Guarded run) :
    Notifying run i below exit observers first (n + 1) ∨
      Notified run i below exit observers first (n + 1) := by
  obtain ⟨called, left, thread, above, rfl, history, known, control, calm⟩ := notifying
  by_cases steps : StepsAt run n i thread
  · cases above with
    | nil =>
      -- The last call has returned: the next observer is called, if there is one.
      cases left with
      | nil =>
        obtain ⟨after, quiet⟩ := steps.returns (calm rfl) control
        refine .inr ⟨?_, _, steps.after, after⟩
        rw [List.append_nil]
        exact .quiet history quiet
      | cons observer left =>
        obtain ⟨calls, begun, after⟩ := steps.calls (calm rfl) control
        refine .inl ⟨called ++ [observer], left, _, begun, by simp, ?_, steps.after, after, ?_⟩
        · rw [List.map_append]
          exact .event history calls fun other calls' => calls'.alone calls
        · rintro rfl
          exact guarded.calm steps.after after
    | cons top above =>
      -- A call is under way, and whatever it does stays above.
      obtain ⟨begun, own, _, _, control'⟩ := Machine.control_step (steps.steady h) control
      have after : (Machine.step (run n).heap thread).2.control =
          (begun ++ own ++ above) ++ .notifying exit left :: below := by
        rw [control', List.append_assoc, List.append_assoc]
        rfl
      refine .inl ⟨called, left, _, _, rfl, .quiet history (not_callsAt_of_under known control),
        steps.after, after, fun bare => ?_⟩
      rw [bare] at after
      exact guarded.calm steps.after after
  · -- Only a step of its own changes a thread with something under way.
    have busy : thread.control ≠ [] := by simp [control]
    have stays := (h.stays_or_steps known busy).resolve_right steps
    refine .inl ⟨called, left, thread, above, rfl, .quiet history ?_, stays, control, calm⟩
    rintro call ⟨other, rest, under, steps', _⟩
    cases known.symm.trans steps'.before
    exact steps steps'

/-- Whoever is announced an exit to is called in turn. -/
theorem Announces.notifies (announces : Announces run n i below exit observers) (h : Run run)
    (guarded : Guarded run) {last : Nat} (later : n < last) :
    Notifying run i below exit observers (n + 1) last ∨
      ∃ moment ≤ last, Notified run i below exit observers (n + 1) moment := by
  induction last, later using Nat.le_induction with
  | base =>
    obtain ⟨thread, steps, _, calm, control⟩ := announces
    exact .inl ⟨[], observers, _, [], rfl, .empty, steps.after, control, fun _ => calm⟩
  | succ last _ ih =>
    rcases ih with notifying | ⟨moment, before, notified⟩
    · rcases notifying.next h guarded with still | notified
      · exact .inl still
      · exact .inr ⟨last + 1, le_rfl, notified⟩
    · exact .inr ⟨moment, before.trans last.le_succ, notified⟩

/-- Whoever is still to be called has been announced an exit to, with those called before. -/
theorem Run.exists_announces (h : Run run) (fresh : (run 0).Fresh) (guarded : Guarded run)
    {left : List (Observer σ)} (known : (run n).threads[i]? = some thread)
    (control : thread.control = above ++ .notifying exit left :: below) :
    ∃ first called, first < n ∧ Announces run first i below exit (called ++ left) ∧
      History (CallsAt run i below.length) (first + 1) n (called.map (exit, ·)) := by
  induction n generalizing thread above left with
  | zero =>
    rw [(fresh.threads thread (List.mem_of_getElem? known)).2] at control
    simp at control
  | succ n ih =>
    by_cases stepped : ∃ before, StepsAt run n i before
    · obtain ⟨before, steps⟩ := stepped
      cases steps.after.symm.trans known
      rcases Machine.notifying_step (steps.steady h) control with
        ⟨announced, rfl⟩ | ⟨observer, under⟩ | ⟨top, above', under⟩
      · have calm := guarded.calm steps.after control
        exact ⟨n, [], n.lt_succ_self, ⟨before, steps, announced, calm, control⟩, .empty⟩
      · -- Before this call the observer was the first of those to come.
        obtain ⟨calls, _⟩ := steps.calls (guarded.calm steps.before under) under
        have bare : before.control = [] ++ .notifying exit (observer :: left) :: below := under
        obtain ⟨first, called, earlier, announces, history⟩ := ih steps.before bare
        refine ⟨first, called ++ [observer], earlier.trans n.lt_succ_self, ?_, ?_⟩
        · rwa [List.append_assoc]
        · rw [List.map_append]
          exact .event history calls fun other calls' => calls'.alone calls
      · obtain ⟨first, called, earlier, announces, history⟩ := ih steps.before under
        exact ⟨first, called, earlier.trans n.lt_succ_self, announces,
          .quiet history (not_callsAt_of_under steps.before under)⟩
    · have mem : Activation.notifying exit left ∈ thread.control := by simp [control]
      have stayed : (run n).threads[i]? = some thread := by
        rcases h.stayed_or_stepped known mem with same | ⟨before, steps, _⟩
        · exact same
        · exact absurd ⟨before, steps⟩ stepped
      obtain ⟨first, called, earlier, announces, history⟩ := ih stayed control
      refine ⟨first, called, earlier.trans n.lt_succ_self, announces, .quiet history ?_⟩
      rintro call ⟨before, _, _, steps, _⟩
      exact stepped ⟨before, steps⟩

/-! ### Fibers that wait for an exit -/

/-- While a fiber waits for a callback it is nowhere but in the heap, so a thread that takes a step
takes all of it along. -/
theorem StepsAt.held_of_parked (steps : StepsAt run n i thread) (h : Run run)
    {callback : CallbackId} {stack : List (Frame σ)}
    (parked : (run n).heap.suspension? callback = some ⟨id, .parked stack⟩) :
    (Machine.held (run n).heap thread id).card ≤ 1 ∧
      (run (n + 1)).places id = Machine.held (Machine.step (run n).heap thread).1
        (Machine.step (run n).heap thread).2 id := by
  obtain ⟨others, was, is⟩ := steps.replaces.exists_places id
  have single : ((run n).places id).card ≤ 1 := (h.owned n).single id
  rw [was] at single
  have nobody : others = 0 := by
    refine eq_zero_of_card_add_le_one single fun none => ?_
    obtain ⟨left, before, _⟩ := Heap.places_setRendezvous parked .resumed id
    rw [Machine.held, before, Suspension.places_parked, add_assoc] at none
    exact Multiset.singleton_ne_zero _ (add_eq_zero.mp none).1
  refine ⟨(Multiset.card_le_card (Multiset.le_add_right _ others)).trans single, ?_⟩
  rw [is, nobody, add_zero, steps.heap]

/-- A fiber that waits for an exit goes on with it, unless its executor drops the task. -/
theorem CallsAt.resumes {depth : Nat} {type : Ty} {callback : CallbackId} {stack : List (Frame σ)}
    (calls : CallsAt run i depth n (exit, .resume type callback)) (h : Run run)
    (parked : (run n).heap.suspension? callback = some { fiber := id, state := .parked stack }) :
    (run (n + 1)).heap.suspension? callback = some { fiber := id, state := .resumed } ∧
      ((run (n + 1)).places id =
          {.active (.node (.succeed ⟨.exit type, exit.recover type⟩)) stack} ∨
        (run (n + 1)).places id = 0) := by
  obtain ⟨thread, rest, below, steps, calm, control, _⟩ := calls
  have step : Machine.step (run n).heap thread = Machine.completeCallback (run n).heap
      { thread with control := .notifying exit rest :: below } callback
      ⟨.exit type, exit.recover type⟩ := Machine.step_of_next? (run n).heap calm control
  have same :
      Machine.held (run n).heap { thread with control := .notifying exit rest :: below } id =
        Machine.held (run n).heap thread id := by
    simp only [Machine.held, Thread.places, control, List.map_cons, List.sum_cons,
      Activation.places]
  obtain ⟨alone, places⟩ := steps.held_of_parked h parked
  rw [places, steps.heap, step]
  exact Machine.resumes_completeCallback parked (same ▸ alone) ⟨.exit type, exit.recover type⟩

/-- A fiber that is still registering its callback finds the exit when it has done so. -/
theorem CallsAt.completes {depth : Nat} {type : Ty} {callback : CallbackId}
    (calls : CallsAt run i depth n (exit, .resume type callback))
    (registering :
      (run n).heap.suspension? callback = some { fiber := id, state := .registering }) :
    (run (n + 1)).heap.suspension? callback =
      some { fiber := id, state := .completed ⟨.exit type, exit.recover type⟩ } := by
  obtain ⟨under, heap, _⟩ := calls.notifies
  rw [heap, Machine.notify, Machine.completeCallback, registering]
  refine (Heap.suspension?_setRendezvous _ callback callback _).trans ?_
  rw [if_pos rfl, registering]
  rfl

/-! ### The law of observers -/

/-- What becomes of all observers in a run. -/
structure Observation (run : Nat → World σ) : Prop where
  /-- When a fiber ends, its exit is announced to all who have asked for it before, in the order in
  which they came. -/
  ended : ∀ n id exit, (run n).heap.poll id = none → (run (n + 1)).heap.poll id = some exit →
    ∃ observers, History (Registers run id) 0 n observers ∧
      ∃ i below, Announces run n i below exit observers
  /-- To whoever asks later it is announced at once, by the thread that asks. -/
  late : ∀ n i id exit observer, RegistersAt run i id n observer →
    (run n).heap.poll id = some exit → ∃ below, Announces run n i below exit [observer]
  /-- There is no other announcement. -/
  origin : ∀ n i below exit observers, Announces run n i below exit observers →
    ∃ id, (run (n + 1)).heap.poll id = some exit ∧
      ((run n).heap.poll id = none ∧ History (Registers run id) 0 n observers ∨
        (run n).heap.poll id = some exit ∧
          ∃ observer, observers = [observer] ∧ RegistersAt run i id n observer)
  /-- In particular, there is at most one in a step. -/
  alone : ∀ n i j below below' exit exit' observers observers',
    Announces run n i below exit observers → Announces run n j below' exit' observers' →
    i = j ∧ below = below' ∧ exit = exit' ∧ observers = observers'
  /-- From an announcement on, exactly the observers in it are called from its place, one after
  another, before the thread goes on with what it did before. -/
  notified : ∀ n i below exit observers last, Announces run n i below exit observers → n < last →
    Notifying run i below exit observers (n + 1) last ∨
      ∃ moment ≤ last, Notified run i below exit observers (n + 1) moment
  /-- Every call comes from an announcement. -/
  called : ∀ n i depth exit observer, CallsAt run i depth n (exit, observer) →
    ∃ first below called left, first < n ∧ below.length = depth ∧
      Announces run first i below exit (called ++ observer :: left) ∧
      History (CallsAt run i depth) (first + 1) n (called.map (exit, ·))
  /-- A call hands the exit to its observer. -/
  notifies : ∀ n i depth exit observer, CallsAt run i depth n (exit, observer) →
    ∃ under : Thread σ, (run (n + 1)).heap = (Machine.notify (run n).heap under exit observer).1 ∧
      (run (n + 1)).threads[i]? = some (Machine.notify (run n).heap under exit observer).2
  /-- If the observer is a fiber that waits, it goes on with the exit, unless its executor drops the
  task; the callback is used up. -/
  resumes : ∀ n i depth exit type callback id stack,
    CallsAt run i depth n (exit, .resume type callback) →
    (run n).heap.suspension? callback = some { fiber := id, state := .parked stack } →
    (run (n + 1)).heap.suspension? callback = some { fiber := id, state := .resumed } ∧
      ((run (n + 1)).places id =
          {.active (.node (.succeed ⟨.exit type, exit.recover type⟩)) stack} ∨
        (run (n + 1)).places id = 0)
  /-- If it is only about to wait, it finds the exit. -/
  completes : ∀ n i depth exit type callback id,
    CallsAt run i depth n (exit, .resume type callback) →
    (run n).heap.suspension? callback = some { fiber := id, state := .registering } →
    (run (n + 1)).heap.suspension? callback =
      some { fiber := id, state := .completed ⟨.exit type, exit.recover type⟩ }
  /-- A callback that panics is dropped, and what is under it goes on. -/
  swallowed : ∀ n i thread code rest payload, StepsAt run n i thread →
    thread.control = .callback code :: rest → thread.Panics (.callback code) payload →
    (run (n + 1)).threads[i]? = some { thread with control := rest, panicking := none } ∨
      thread.panicking = none ∧
        (run (n + 1)).threads[i]? = some { thread with panicking := some payload }
  /-- An exit is there for ever. -/
  final : ∀ n m id exit, n ≤ m → (run n).heap.poll id = some exit →
    (run m).heap.poll id = some exit

theorem StepsAt.swallowed (steps : StepsAt run n i thread) {code : Code σ Unit}
    {rest : List (Activation σ)} {payload : Payload}
    (control : thread.control = .callback code :: rest)
    (panics : thread.Panics (.callback code) payload) :
    (run (n + 1)).threads[i]? = some { thread with control := rest, panicking := none } ∨
      thread.panicking = none ∧
        (run (n + 1)).threads[i]? = some { thread with panicking := some payload } := by
  rcases (steps.stepped.swallowed control panics).1 with gone | ⟨calm, raised⟩
  · exact .inl (gone ▸ steps.after)
  · exact .inr ⟨calm, raised ▸ steps.after⟩

theorem Run.guarded (h : Run run) (fresh : (run 0).Fresh)
    (willing : ∀ n executor, (run n).heap.refusal? executor = none) : Guarded run := by
  intro n thread known
  refine h.not_escaping_of_willing willing (fun thread known => ?_) known
  have idle : thread.control = [].map .program := (fresh.threads thread known).2
  exact Thread.not_escaping_of_programs idle

/-- If no executor refuses a task, every observer of a fiber is called exactly once, in the order of
registration, when the fiber ends or at once if it has ended; and its exit never changes. -/
theorem completion_observed (h : Run run) (fresh : (run 0).Fresh)
    (willing : ∀ n executor, (run n).heap.refusal? executor = none) : Observation run where
  ended _ _ _ running ended := h.announces_end fresh running ended
  late _ _ _ _ _ registers ended := registers.announces h ended
  origin _ _ _ _ _ announces := announces.origin h fresh
  alone _ _ _ _ _ _ _ _ _ announces announces' := announces.alone announces'
  notified _ _ _ _ _ _ announces later := announces.notifies h (h.guarded fresh willing) later
  called n i depth exit observer calls := by
    obtain ⟨thread, left, below, steps, _, control, rfl⟩ := calls
    have bare : thread.control = [] ++ .notifying exit (observer :: left) :: below := control
    obtain ⟨first, called, earlier, announces, history⟩ :=
      h.exists_announces fresh (h.guarded fresh willing) steps.before bare
    exact ⟨first, below, called, left, earlier, rfl, announces, history⟩
  notifies _ _ _ _ _ calls := calls.notifies
  resumes _ _ _ _ _ _ _ _ calls parked := calls.resumes h parked
  completes _ _ _ _ _ _ _ calls registering := calls.completes registering
  swallowed _ _ _ _ _ _ steps control panics := steps.swallowed control panics
  final _ _ _ _ later ended := h.poll_stays later ended

/-- A fiber waits; its callback would panic, and another fiber waits for its exit. Then it goes on
and ends, and somebody asks for its exit once more. -/
def attended : Code Nat Unit :=
  .launchWith ⟨0⟩ (Effect.async fun _ => .done () : Effect Nat .unit).node
    (.ofCode fun _ => .panic (.message "burst")) fun first =>
      .launch ⟨0⟩ (Effect.awaitExit (⟨first⟩ : Fiber .unit)).node fun _ =>
        .complete ⟨0⟩ .unit fun _ => .observe first .unit ⟨1⟩ .done

/-- If all executors of a trial run their tasks at once, until it comes to rest, none ever refuses
one. -/
theorem willing_staged {state : σ} {program : Code σ Unit} {last : Nat}
    (inline : ∀ n ≤ last, ∀ executor ∈ (trial state program n).heap.executors.toList,
      executor.discipline = .inline)
    (idle : (trial state program last).main.control = [])
    (calm : (trial state program last).main.panicking = none) (n : Nat) (executor : ExecutorId) :
    (staged state program n).heap.refusal? executor = none := by
  have all : ∀ executor ∈ (staged state program n).heap.executors.toList,
      executor.discipline = .inline := by
    cases n with
    | zero => exact inline 0 (Nat.zero_le last)
    | succ n =>
      rcases le_total n last with early | later
      · exact inline n early
      · have rest : staged state program (n + 1) = trial state program last :=
          trial_of_idle idle calm later
        rw [rest]
        exact inline last le_rfl
  unfold Heap.refusal?
  split
  next name payload waiting known =>
    cases all _ (Array.mem_toList_iff.mpr (Array.mem_of_getElem? known))
  next => rfl

/-- The callback panics, the other fiber gets the exit all the same, and so does whoever asks last.
-/
theorem completion_observed_attended :
    let run := staged 0 attended
    Observation run ∧
      (∃ burst, CallsAt run 0 2 13 (.success .unit, .call burst)) ∧ (run 16).heap.defects = 1 ∧
      CallsAt run 0 2 16 (.success .unit, .resume .unit ⟨1⟩) ∧
      (run 17).heap.suspension? ⟨1⟩ = some { fiber := ⟨2⟩, state := .resumed } ∧
      CallsAt run 0 1 24 (.success .unit, .resume .unit ⟨1⟩) ∧
      (run 27).heap.poll ⟨2⟩ = some (.success ⟨.exit .unit, .success ()⟩) := by
  have inline : ∀ n ≤ 26, ∀ executor ∈ (trial 0 attended n).heap.executors.toList,
      executor.discipline = .inline := by decide
  have observation := completion_observed (run_staged 0 attended) (fresh_bare 0)
    (willing_staged inline rfl rfl)
  have call : CallsAt (staged 0 attended) 0 2 16 (.success .unit, .resume .unit ⟨1⟩) :=
    ⟨_, _, _, ⟨rfl, rfl, rfl⟩, rfl, rfl, rfl⟩
  refine ⟨observation, ⟨_, _, _, _, ⟨rfl, rfl, rfl⟩, rfl, rfl, rfl⟩, rfl, call, ?_,
    ⟨_, _, _, ⟨rfl, rfl, rfl⟩, rfl, rfl, rfl⟩, rfl⟩
  exact (observation.resumes 16 0 2 _ _ _ _ _ call rfl).1

end World

end Fibers
