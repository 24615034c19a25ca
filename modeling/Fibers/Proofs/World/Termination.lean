import Fibers.Proofs.World.Deadlock
import Fibers.Proofs.World.Kin

/-!
# Batches and drains end

A thread that runs the loop of a bounded fiber comes to the end of the batch, and one that drains
the batches of such fibers comes to the end of its queue. Nothing is asked of the other threads:
they may take any steps in between, ask for interruption and complete callbacks.

## Main results

`World.batches_and_drains_end`: the loops of bounded fibers and the drains around them end in every
run of a machine, as long as their threads are scheduled again and again (`World.Terminates`).

## Proof strategy

The fibers of a family take finitely many steps (`World.Bounded.ceases`), so the loop on top of a
thread steps finitely often. Between two of its steps the thread gets to the end of whatever stands
on the loop (`World.falls_of_brief`), which is shown by induction on the code and the observers that
are left. The drain itself only takes a batch, whose loop takes the next step.
-/

namespace Fibers

variable {σ : Type}

theorem Machine.takePanic_of_brief (heap : Heap σ) (thread : Thread σ) (payload : Payload)
    {activation : Activation σ} (brief : activation.Brief) :
    (takePanic heap thread payload activation).2.control = thread.control ∧
      (takePanic heap thread payload activation).2.pending = thread.pending := by
  cases brief <;> exact ⟨rfl, rfl⟩

namespace World

variable {run : Nat → World σ} {id root : FiberId} {first n m i : Nat} {thread : Thread σ}
  {activation : Activation σ} {segment base : List (Activation σ)}

/-! ### Threads that go on -/

/-- A thread takes steps again and again. -/
def Scheduled (run : Nat → World σ) (i : Nat) : Prop :=
  ∀ n, ∃ m thread, n ≤ m ∧ StepsAt run m i thread

/-- A thread that runs batches has these activations under way. -/
def On (run : Nat → World σ) (i n : Nat) (control : List (Activation σ)) : Prop :=
  ∃ thread, (run n).threads[i]? = some thread ∧ thread.control = control ∧ thread.pending.isSome

/-- What a thread has under way waits for the next step of the thread. -/
theorem Scheduled.next (scheduled : Scheduled run i) (h : Run run)
    (known : (run n).threads[i]? = some thread) (busy : thread.control ≠ []) :
    ∃ m, n ≤ m ∧ StepsAt run m i thread := by
  obtain ⟨last, other, le, steps⟩ := scheduled n
  by_contra none
  push Not at none
  have stays : ∀ m, n ≤ m → (run m).threads[i]? = some thread := by
    intro m le
    induction m, le using Nat.le_induction with
    | base => exact known
    | succ m le ih => exact (h.stays_or_steps ih busy).resolve_right (none m le)
  cases (stays last le).symm.trans steps.before
  exact none last le steps

theorem StepsAt.on (steps : StepsAt run n i thread) {control : List (Activation σ)}
    (left : (Machine.step (run n).heap thread).2.control = control)
    (running : (Machine.step (run n).heap thread).2.pending.isSome) : On run i (n + 1) control :=
  ⟨_, steps.after, left, running⟩

/-! ### What stands on a loop or a drain for a while -/

/-- A thread gets to the end of an activation, whatever is under it. -/
def Falls (run : Nat → World σ) (i : Nat) (activation : Activation σ) : Prop :=
  ∀ n base, On run i n (activation :: base) → ∃ m, n ≤ m ∧ On run i m base

theorem falls_append (falls : ∀ activation ∈ segment, Falls run i activation)
    (on : On run i n (segment ++ base)) : ∃ m, n ≤ m ∧ On run i m base := by
  induction segment generalizing n with
  | nil => exact ⟨n, le_rfl, on⟩
  | cons activation segment ih =>
    obtain ⟨first, others⟩ := List.forall_mem_cons.mp falls
    obtain ⟨m, le, on⟩ := first n _ on
    obtain ⟨m', le', on⟩ := ih others on
    exact ⟨m', le.trans le', on⟩

section Falls

variable (h : Run run) (scheduled : Scheduled run i)

include h scheduled

/-- A panic takes along what is not guarded, and is swallowed by what is. -/
theorem falls_of_panicking (brief : activation.Brief) (known : (run n).threads[i]? = some thread)
    (control : thread.control = activation :: base) (running : thread.pending.isSome)
    {payload : Payload} (panicking : thread.panicking = some payload) :
    ∃ m, n ≤ m ∧ On run i m base := by
  obtain ⟨m, le, steps⟩ := scheduled.next h known (control ▸ List.cons_ne_nil _ _)
  have stepped := Machine.step_of_panicking (run m).heap panicking control
  obtain ⟨left, pending⟩ :=
    Machine.takePanic_of_brief (run m).heap { thread with control := base } payload brief
  rw [← stepped] at left pending
  exact ⟨m + 1, Nat.le_succ_of_le le, steps.on left (pending ▸ running)⟩

/-- It is enough to look at a step of a thread that does not panic. -/
theorem falls_of_calm (brief : activation.Brief)
    (calm : ∀ n thread base, StepsAt run n i thread → thread.panicking = none →
      thread.control = activation :: base → thread.pending.isSome →
      ∃ m, n ≤ m ∧ On run i m base) : Falls run i activation := by
  rintro n base ⟨thread, known, control, running⟩
  cases panicking : thread.panicking with
  | some payload => exact falls_of_panicking h scheduled brief known control running panicking
  | none =>
    obtain ⟨m, le, steps⟩ := scheduled.next h known (control ▸ List.cons_ne_nil _ _)
    obtain ⟨m', le', on⟩ := calm m thread base steps panicking control running
    exact ⟨m', le.trans le', on⟩

/-- An activation comes to its end if what a step leaves in its place does. -/
theorem falls_of_step (brief : activation.Brief) {left : List (Activation σ)}
    (falls : ∀ other ∈ left, Falls run i other)
    (leaves : ∀ (heap : Heap σ) (thread : Thread σ), thread.pending.isSome →
      (Machine.advance heap thread activation).2.control = left ++ thread.control ∧
        (Machine.advance heap thread activation).2.pending.isSome) : Falls run i activation := by
  refine falls_of_calm h scheduled brief fun n thread base steps calm control running => ?_
  have stepped := Machine.step_of_next? (run n).heap calm control
  obtain ⟨control', running'⟩ := leaves (run n).heap { thread with control := base } running
  rw [← stepped] at control' running'
  obtain ⟨m, le, on⟩ := falls_append falls (steps.on control' running')
  exact ⟨m, Nat.le_of_succ_le le, on⟩

theorem falls_opening (mailbox : MailboxId) : Falls run i (.opening mailbox) :=
  falls_of_step h scheduled (.opening mailbox) (List.forall_mem_nil _) fun _ _ running =>
    ⟨rfl, running⟩

theorem falls_posting (mailbox : MailboxId) (exit : Exit Erased) :
    Falls run i (.posting mailbox exit) :=
  falls_of_step h scheduled (.posting mailbox exit)
    (List.forall_mem_singleton.mpr (falls_opening h scheduled mailbox)) fun _ _ running =>
      ⟨rfl, running⟩

theorem falls_notifying_nil (exit : Exit Erased) : Falls run i (.notifying exit []) :=
  falls_of_step h scheduled (.notifying exit (List.forall_mem_nil _)) (List.forall_mem_nil _)
    fun _ _ running => ⟨rfl, running⟩

/-- A completion may resume a fiber, whose batch is queued. -/
theorem falls_notifying_resume (exit : Exit Erased) (type : Ty) (callback : CallbackId)
    {observers : List (Observer σ)} (modest : ∀ observer ∈ observers, observer.Modest)
    (others : Falls run i (.notifying exit observers)) :
    Falls run i (.notifying exit (.resume type callback :: observers)) := by
  refine falls_of_step h scheduled
    (.notifying exit (List.forall_mem_cons.mpr ⟨.resume type callback, modest⟩))
    (List.forall_mem_singleton.mpr others) fun heap thread running => ?_
  have settled := Machine.settled_completeCallback heap
    (thread.push (.notifying exit observers)) running callback ⟨.exit type, exit.recover type⟩
  exact ⟨settled.control, settled.running⟩

theorem falls_notice {begun : List (Activation σ)} (notice : Notice begun) :
    ∀ activation ∈ begun, Falls run i activation := by
  cases notice with
  | nobody => exact List.forall_mem_nil _
  | fiber exit type callback =>
    exact List.forall_mem_singleton.mpr (falls_notifying_resume h scheduled exit type callback
      (List.forall_mem_nil _) (falls_notifying_nil h scheduled exit))

/-- The induction is on what is left of the code of the callback. -/
theorem falls_callback {code : Code σ Unit} (modest : code.Modest) :
    Falls run i (.callback code) := by
  induction code using Action.induction_on_answers with
  | h code ih =>
    refine falls_of_calm h scheduled (.callback modest)
      fun n thread base steps calm control running => ?_
    have stepped := Machine.step_of_next? (run n).heap calm control
    rcases code.done_or_panics_or_goes with ⟨result, rfl⟩ | ⟨payload, rfl⟩ | going
    · exact ⟨n + 1, n.le_succ, steps.on (by rw [stepped]; rfl) (by rw [stepped]; exact running)⟩
    · have left : (Machine.step (run n).heap thread).2.control =
          .callback (.panic payload) :: base := by rw [stepped]; rfl
      obtain ⟨m, le, on⟩ := falls_of_panicking h scheduled (.callback modest) steps.after left
        (by rw [stepped]; exact running) (by rw [stepped]; rfl)
      exact ⟨m, Nat.le_of_succ_le le, on⟩
    · have performed : Machine.step (run n).heap thread =
          Machine.perform (run n).heap { thread with control := base } .callback code := by
        rw [stepped]
        exact Machine.advance_of_holds (.callback code) going _ _
      obtain ⟨rest, answer, begun, answered, notice, left, running⟩ :=
        Machine.exists_perform_of_modest (run n).heap { thread with control := base } .callback
          modest going running
      rw [← performed] at left running
      -- What the request has begun is on top of the rest of the code, and falls first.
      obtain ⟨m, le, on⟩ := falls_append (falls_notice h scheduled notice) (steps.on left running)
      obtain ⟨m', le', on⟩ := ih answer rest answered (modest.answered answered) _ _ on
      exact ⟨m', (Nat.le_of_succ_le le).trans le', on⟩

theorem falls_notifying (exit : Exit Erased) {observers : List (Observer σ)}
    (modest : ∀ observer ∈ observers, observer.Modest) :
    Falls run i (.notifying exit observers) := by
  induction observers with
  | nil => exact falls_notifying_nil h scheduled exit
  | cons observer observers ih =>
    obtain ⟨first, others⟩ := List.forall_mem_cons.mp modest
    -- What one observer begins is on top of the others.
    have further {begun : Activation σ} (falls : Falls run i begun) :
        ∀ other ∈ [begun, .notifying exit observers], Falls run i other :=
      List.forall_mem_cons.mpr ⟨falls, List.forall_mem_singleton.mpr (ih others)⟩
    cases first with
    | resume type callback =>
      exact falls_notifying_resume h scheduled exit type callback others (ih others)
    | @call code told =>
      exact falls_of_step h scheduled (.notifying exit modest)
        (further (falls_callback h scheduled (told exit))) fun _ _ running => ⟨rfl, running⟩
    | answer type mailbox =>
      exact falls_of_step h scheduled (.notifying exit modest)
        (further (falls_posting h scheduled mailbox _)) fun _ _ running => ⟨rfl, running⟩

/-- A thread gets to the end of what stands on a loop or a drain for a while. -/
theorem falls_of_brief (brief : activation.Brief) : Falls run i activation := by
  cases brief with
  | callback modest => exact falls_callback h scheduled modest
  | posting mailbox exit => exact falls_posting h scheduled mailbox exit
  | opening mailbox => exact falls_opening h scheduled mailbox
  | notifying exit modest => exact falls_notifying h scheduled exit modest

end Falls

/-! ### Refusals -/

/-- A panic that gets past the guards on a thread was on its way before, or an executor refuses
something in this step. -/
theorem Run.escaping_cases (h : Run run) (known : (run (n + 1)).threads[i]? = some thread)
    (escaping : thread.Escaping) :
    (∃ before, (run n).threads[i]? = some before ∧ before.Escaping) ∨ RefusesAt run n i := by
  rcases h.get_cases known with old | commences | ⟨before, steps, rfl⟩
  · exact .inl ⟨thread, old, escaping⟩
  · exact absurd escaping commences.not_escaping
  · have nested := nested_of_reachable (h.reachable n) before (List.mem_of_getElem? steps.before)
    rcases Machine.escaping_step (steps.steady h) nested escaping with
      already | ⟨calm, activation, rest, id, payload, control, refused⟩
    · exact .inl ⟨before, steps.before, already⟩
    · exact .inr ⟨before, activation, rest, id, payload, steps, calm, control, refused⟩

/-- An executor has refused something on a thread since some moment. -/
def RefusedSince (run : Nat → World σ) (i first last : Nat) : Prop :=
  ∃ m, first ≤ m ∧ m < last ∧ RefusesAt run m i

theorem Run.refused_of_escaping (h : Run run) {before : Thread σ}
    (start : (run first).threads[i]? = some before) (calm : ¬before.Escaping) (le : first ≤ m)
    (known : (run m).threads[i]? = some thread) (escaping : thread.Escaping) :
    RefusedSince run i first m := by
  induction m, le using Nat.le_induction generalizing thread with
  | base =>
    cases start.symm.trans known
    exact absurd escaping calm
  | succ m le ih =>
    rcases h.escaping_cases known escaping with ⟨old, there, already⟩ | refuses
    · obtain ⟨k, low, high, refuses⟩ := ih there already
      exact ⟨k, low, Nat.lt_succ_of_lt high, refuses⟩
    · exact ⟨m, le, Nat.lt_succ_self m, refuses⟩

/-! ### Loops -/

variable {below : List (Activation σ)} {members : List FiberId} {last k : Nat}

/-- The loop of a fiber comes to the end of its batch: the fiber has ended, it waits for a callback,
or it moves to another executor. -/
def Finishes (run : Nat → World σ) (i : Nat) (id : FiberId) (below : List (Activation σ))
    (n : Nat) : Prop :=
  ∃ thread focus stack, StepsAt run n i thread ∧ thread.control = .loop id focus stack :: below ∧
    thread.panicking = none ∧ Machine.Over id stack (run (n + 1)).heap focus

theorem Finishes.proceeds (finishes : Finishes run i id below n) : Proceeds run id n := by
  obtain ⟨thread, focus, stack, steps, control, _⟩ := finishes
  exact ⟨i, thread, focus, stack, below, steps, control⟩

theorem interprets_of_uncaught {focus : Focus σ} {payload : Payload}
    (uncaught : focus.caught payload = none) (stack : List (Frame σ)) :
    (Activation.loop id focus stack).interprets = true := by
  cases focus <;> first | rfl | cases uncaught

/-- The loop of a fiber that takes finitely many steps comes to its end. -/
theorem On.finishes (h : Run run) (fresh : (run 0).Fresh) (scheduled : Scheduled run i)
    {start : Thread σ} (begins : (run first).threads[i]? = some start) (calm : ¬start.Escaping)
    (bounded : (run first).Bounded id) (still : ∀ m, k ≤ m → ¬Proceeds run id m)
    {focus : Focus σ} {stack : List (Frame σ)} (le : first ≤ n)
    (on : On run i n (segment ++ .loop id focus stack :: below))
    (brief : ∀ activation ∈ segment, activation.Brief) :
    ∃ last, n ≤ last ∧ (RefusedSince run i first last ∨ Finishes run i id below last ∧
      ∃ begun, (∀ activation ∈ begun, activation.Brief) ∧
        On run i (last + 1) (begun ++ below)) := by
  induction left : k - n using Nat.strong_induction_on generalizing n segment focus stack with
  | h left' ih =>
    subst left
    -- First whatever is brief comes to its end, and then the loop steps.
    obtain ⟨m, le', thread, known, control, running⟩ := falls_append
      (fun activation mem => falls_of_brief h scheduled (brief activation mem)) on
    obtain ⟨m', le'', steps⟩ := scheduled.next h known (control ▸ List.cons_ne_nil _ _)
    have later : n ≤ m' := le'.trans le''
    have early : m' < k := by
      by_contra late
      exact still m' (Nat.le_of_not_lt late) ⟨i, thread, focus, stack, below, steps, control⟩
    have sooner : k - (m' + 1) < k - n := by omega
    -- The induction is on what is left of the time in which the fiber may proceed.
    have further {focus' : Focus σ} {stack' : List (Frame σ)} {begun : List (Activation σ)}
        (brief : ∀ activation ∈ begun, activation.Brief)
        (on : On run i (m' + 1) (begun ++ .loop id focus' stack' :: below)) :
        ∃ last, n ≤ last ∧ (RefusedSince run i first last ∨ Finishes run i id below last ∧
          ∃ begun, (∀ activation ∈ begun, activation.Brief) ∧
            On run i (last + 1) (begun ++ below)) := by
      obtain ⟨last, le, ends⟩ := ih _ sooner (le.trans (Nat.le_succ_of_le later)) on brief rfl
      exact ⟨last, (Nat.le_succ_of_le later).trans le, ends⟩
    cases panicking : thread.panicking with
    | none =>
      have bounded' := bounded.later h (le.trans later)
      cases steps.loopStep h fresh bounded' control panicking with
      | on notice changed left running =>
        exact further notice.brief (steps.on left running)
      | ended finished undue begins left running =>
        rw [← steps.heap] at finished
        refine ⟨m', later, .inr ⟨⟨thread, focus, stack, steps, control, panicking, finished⟩, _, ?_,
          steps.on left running⟩⟩
        rcases begins with rfl | ⟨exit, rfl⟩
        · exact List.forall_mem_nil _
        · exact List.forall_mem_singleton.mpr (.notifying exit bounded'.observers)
    | some payload =>
      have stepped := Machine.step_of_panicking (run m').heap panicking control
      rcases caught : focus.caught payload with _ | next
      · have escaping : thread.Escaping :=
          ⟨by simp [panicking], _, _, control, interprets_of_uncaught caught stack⟩
        exact ⟨m', later, .inl (h.refused_of_escaping begins calm (le.trans later) steps.before
          escaping)⟩
      · have on : On run i (m' + 1) ([] ++ .loop id next stack :: below) := by
          refine steps.on ?_ ?_ <;> rw [stepped] <;> cases focus <;> cases caught
          all_goals first | rfl | exact running
        exact further (List.forall_mem_nil _) on

/-! ### Families and drains -/

/-- A fiber of the families of some others. -/
def Family (run : Nat → World σ) (n : Nat) (members : List FiberId) (id : FiberId) : Prop :=
  ∃ root ∈ members, Kin run n root id

theorem Family.bounded (family : Family run first members id) (h : Run run)
    (bounded : ∀ id ∈ members, (run first).Bounded id) (le : first ≤ n)
    (there : (run n).places id ≠ 0) : (run n).Bounded id := by
  obtain ⟨root, mem, kin⟩ := family
  exact kin.bounded h (bounded root mem) le ((h.owned n).there there).1

/-- Some families together take finitely many steps. -/
theorem exists_still (h : Run run) (fresh : (run 0).Fresh)
    (bounded : ∀ id ∈ members, (run first).Bounded id) :
    ∃ last, ∀ m, last ≤ m → ∀ id, Family run first members id → ¬Proceeds run id m := by
  induction members with
  | nil => exact ⟨0, by rintro m le id ⟨root, mem, kin⟩; cases mem⟩
  | cons root members ih =>
    obtain ⟨own, others⟩ := List.forall_mem_cons.mp bounded
    obtain ⟨last, still⟩ := own.ceases h fresh
    obtain ⟨last', still'⟩ := ih others
    refine ⟨max last last', ?_⟩
    rintro m le id ⟨member, mem, kin⟩
    rcases List.mem_cons.mp mem with rfl | mem
    · exact still m (le_of_max_le_left le) id kin
    · exact still' m (le_of_max_le_right le) id ⟨member, mem, kin⟩

variable {outer : Option (Queue (Batch σ))}

/-- The drain on top of a thread has an empty queue. -/
def Drained (run : Nat → World σ) (i : Nat) (outer : Option (Queue (Batch σ)))
    (below : List (Activation σ)) (n : Nat) : Prop :=
  ∃ thread queue, (run n).threads[i]? = some thread ∧ thread.control = .draining outer :: below ∧
    thread.panicking = none ∧ thread.pending = some queue ∧ queue.toList = []

/-- A drain begins to run a batch of a fiber that is not of some families. -/
def Admits (run : Nat → World σ) (first : Nat) (members : List FiberId) (i : Nat)
    (outer : Option (Queue (Batch σ))) (below : List (Activation σ)) (n : Nat) : Prop :=
  ∃ thread id focus stack, (run n).threads[i]? = some thread ∧
    thread.control = .loop id focus stack :: .draining outer :: below ∧
    ¬Family run first members id

theorem RefusedSince.mono (refused : RefusedSince run i m last) (le : first ≤ m) :
    RefusedSince run i first last := by
  obtain ⟨k, low, high, refuses⟩ := refused
  exact ⟨k, le.trans low, high, refuses⟩

/-- A drain that runs only batches of some families comes to its end. -/
theorem exists_drained (h : Run run) (fresh : (run 0).Fresh) (scheduled : Scheduled run i)
    (bounded : ∀ id ∈ members, (run first).Bounded id)
    (still : ∀ m, k ≤ m → ∀ id, Family run first members id → ¬Proceeds run id m)
    {focus : Focus σ} {stack : List (Frame σ)} (family : Family run first members id)
    (le : first ≤ n) (known : (run n).threads[i]? = some thread)
    (control : thread.control = .loop id focus stack :: .draining outer :: below)
    (calm : thread.panicking = none) :
    ∃ last, n ≤ last ∧ (RefusedSince run i n last ∨ Drained run i outer below last ∨
      Admits run first members i outer below last) := by
  induction left : k - n using Nat.strong_induction_on
    generalizing n id focus stack thread with
  | h left' ih =>
    subst left
    have mem := List.mem_of_getElem? known
    have place := places_of_loop (h.owned n) mem (control ▸ List.mem_cons_self)
    have own := family.bounded h bounded le (place.trans_ne (Multiset.singleton_ne_zero _))
    have on : On run i n ([] ++ .loop id focus stack :: .draining outer :: below) :=
      ⟨thread, known, control, h.pending_isSome fresh known
        (drainsOf_loop_ne_nil (h.reachable n) mem control)⟩
    obtain ⟨last, later, refused | ⟨finishes, begun, brief, on⟩⟩ := on.finishes h fresh scheduled
      known (Thread.not_escaping_of_calm calm) own (fun m late => still m late id family) le_rfl
      (List.forall_mem_nil _)
    · exact ⟨last, later, .inl refused⟩
    · have early : last < k := by
        by_contra late
        exact still last (Nat.le_of_not_lt late) id family finishes.proceeds
      -- The drain is on top again.
      obtain ⟨m, later', thread', known', control', running⟩ := falls_append
        (fun activation mem => falls_of_brief h scheduled (brief activation mem)) on
      have late : n ≤ m := later.trans (Nat.le_of_succ_le later')
      cases panicking : thread'.panicking with
      | some payload =>
        have escaping : thread'.Escaping := ⟨by simp [panicking], _, _, control', rfl⟩
        exact ⟨m, late, .inl (h.refused_of_escaping known (Thread.not_escaping_of_calm calm) late
          known' escaping)⟩
      | none =>
        obtain ⟨queue, pending⟩ := Option.isSome_iff_exists.mp running
        cases popped : queue.popFront? with
        | none =>
          exact ⟨m, late, .inr (.inl ⟨thread', queue, known', control', panicking, pending,
            queue.popFront?_eq_none_iff.mp popped⟩)⟩
        | some taken =>
          obtain ⟨batch, rest⟩ := taken
          obtain ⟨m', le', steps⟩ := scheduled.next h known' (control' ▸ List.cons_ne_nil _ _)
          have stepped := Machine.step_of_next? (run m').heap panicking control'
          simp only [Machine.advance, pending, Option.bind_some, popped] at stepped
          have begins : (Machine.step (run m').heap thread').2.control =
              .loop batch.fiber (.node batch.current) batch.stack :: .draining outer :: below := by
            rw [stepped]
            rfl
          have late' : n ≤ m' + 1 := late.trans (Nat.le_succ_of_le le')
          by_cases inside : Family run first members batch.fiber
          · obtain ⟨last', later'', ends⟩ := ih (k - (m' + 1)) (by omega) inside (le.trans late')
              steps.after begins (by rw [stepped]; exact panicking) rfl
            refine ⟨last', late'.trans later'', ends.imp_left ?_⟩
            exact fun refused => refused.mono late'
          · exact ⟨m' + 1, late', .inr (.inr ⟨_, _, _, _, steps.after, begins, inside⟩)⟩

/-! ### What stays until then -/

/-- What is under way on a thread stays there, unless the thread takes a step and it is on top. -/
theorem Run.stays_under (h : Run run) (known : (run n).threads[i]? = some thread)
    (control : thread.control = segment ++ activation :: below) :
    (∃ thread' segment', (run (n + 1)).threads[i]? = some thread' ∧
        thread'.control = segment' ++ activation :: below) ∨
      segment = [] ∧ StepsAt run n i thread := by
  rcases h.stays_or_steps known (by simp [control]) with stays | steps
  · exact .inl ⟨thread, segment, stays, control⟩
  · cases segment with
    | nil => exact .inr ⟨rfl, steps⟩
    | cons top segment =>
      have whole : thread.control = top :: (segment ++ activation :: below) := control
      obtain ⟨begun, own, _, _, control'⟩ := Machine.control_step (steps.steady h) whole
      refine .inl ⟨_, begun ++ (own ++ segment), steps.after, ?_⟩
      rw [control', List.append_assoc, List.append_assoc]

/-- The loop of a fiber is under way on a thread. -/
def Looping (run : Nat → World σ) (i : Nat) (id : FiberId) (below : List (Activation σ))
    (n : Nat) : Prop :=
  ∃ thread segment focus stack, (run n).threads[i]? = some thread ∧
    thread.control = segment ++ .loop id focus stack :: below

/-- A drain is under way on a thread. -/
def Draining (run : Nat → World σ) (i : Nat) (outer : Option (Queue (Batch σ)))
    (below : List (Activation σ)) (n : Nat) : Prop :=
  ∃ thread segment, (run n).threads[i]? = some thread ∧
    thread.control = segment ++ .draining outer :: below

theorem exists_begun_of_receives {thread' : Thread σ} {arrival : Option (Task σ)}
    (receives : thread.Receives arrival thread') :
    ∃ begun, thread'.control = begun ++ thread.control := by
  cases receives with
  | nothing _ control _ => exact ⟨_, control⟩
  | task task control _ _ =>
    obtain ⟨begun, _, own, _⟩ := (thread.grows_run task).of_willing
    exact ⟨begun, control.trans own⟩

theorem Looping.next (looping : Looping run i id below n) (h : Run run) {start : Thread σ}
    (begins : (run first).threads[i]? = some start) (calm : ¬start.Escaping) (le : first ≤ n)
    (goes : ¬(RefusedSince run i first n ∨ Finishes run i id below n)) :
    Looping run i id below (n + 1) := by
  obtain ⟨thread, segment, focus, stack, known, control⟩ := looping
  rcases h.stays_under known control with ⟨thread', segment', stays⟩ | ⟨rfl, steps⟩
  · exact ⟨thread', segment', focus, stack, stays⟩
  · have control : thread.control = .loop id focus stack :: below := control
    cases panicking : thread.panicking with
    | none =>
      obtain ⟨own, leaves, ⟨receives, _⟩, ends⟩ := steps.left h panicking control (by rintro _ ⟨⟩)
      obtain ⟨begun, control'⟩ := exists_begun_of_receives receives
      cases leaves with
      | gone =>
        have finished := ends id focus stack rfl rfl
        rw [← steps.heap] at finished
        exact absurd (.inr ⟨thread, focus, stack, steps, control, panicking, finished⟩) goes
      | loop => exact ⟨_, begun, _, _, steps.after, control'⟩
    | some payload =>
      have stepped := Machine.step_of_panicking (run n).heap panicking control
      rcases caught : focus.caught payload with _ | next
      · have escaping : thread.Escaping :=
          ⟨by simp [panicking], _, _, control, interprets_of_uncaught caught stack⟩
        exact absurd (.inl (h.refused_of_escaping begins calm le known escaping)) goes
      · refine ⟨_, [], next, stack, steps.after, ?_⟩
        rw [stepped]
        cases focus <;> cases caught <;> rfl

theorem Draining.next (draining : Draining run i outer below n) (h : Run run)
    (fresh : (run 0).Fresh) {start : Thread σ}
    (begins : (run first).threads[i]? = some start) (calm : ¬start.Escaping)
    (le : first ≤ n) (goes : ¬(RefusedSince run i first n ∨ Drained run i outer below n)) :
    Draining run i outer below (n + 1) := by
  obtain ⟨thread, segment, known, control⟩ := draining
  rcases h.stays_under known control with stays | ⟨rfl, steps⟩
  · exact stays
  · have control : thread.control = .draining outer :: below := control
    have busy : drainsOf thread.control ≠ [] := by
      rw [control]
      exact List.cons_ne_nil _ _
    obtain ⟨queue, pending⟩ := Option.isSome_iff_exists.mp (h.pending_isSome fresh known busy)
    cases panicking : thread.panicking with
    | none =>
      have stepped := Machine.step_of_next? (run n).heap panicking control
      cases popped : queue.popFront? with
      | none =>
        exact absurd (.inr ⟨thread, queue, known, control, panicking, pending,
          queue.popFront?_eq_none_iff.mp popped⟩) goes
      | some taken =>
        obtain ⟨batch, rest⟩ := taken
        simp only [Machine.advance, pending, Option.bind_some, popped] at stepped
        refine ⟨_, [.loop batch.fiber (.node batch.current) batch.stack], steps.after, ?_⟩
        rw [stepped]
        rfl
    | some payload =>
      have escaping : thread.Escaping := ⟨by simp [panicking], _, _, control, rfl⟩
      exact absurd (.inl (h.refused_of_escaping begins calm le known escaping)) goes

/-- What goes on up to the first moment at which something holds is there at that moment. -/
theorem exists_first {holds goes : Nat → Prop} (ends : ∃ m, first ≤ m ∧ holds m)
    (begins : goes first) (next : ∀ m, first ≤ m → goes m → ¬holds m → goes (m + 1)) :
    ∃ last, first ≤ last ∧ holds last ∧ ∀ m, first ≤ m → m ≤ last → goes m := by
  classical
  obtain ⟨low, now⟩ := Nat.find_spec ends
  refine ⟨Nat.find ends, low, now, fun m le high => ?_⟩
  induction m, le using Nat.le_induction with
  | base => exact begins
  | succ m le ih =>
    refine next m le (ih (Nat.le_of_succ_le high)) fun early => ?_
    exact Nat.find_min ends (Nat.lt_of_succ_le high) ⟨le, early⟩

/-! ### Starts -/

/-- User code starts an effect on a root fiber, whose exit is told to modest code at most. -/
inductive Begins {α : Type} (executor : ExecutorId) (root : Node σ) : Code σ α → Prop where
  | launch (next : FiberId → Code σ α) : Begins executor root (.launch executor root next)
  | launchWith {code : Exit Erased → Code σ Unit} (modest : ∀ exit, (code exit).Modest)
      (next : FiberId → Code σ α) :
      Begins executor root (.launchWith executor root (.ofCode code) next)
  | submit (type : Ty) (next : MailboxId → Code σ α) :
      Begins executor root (.submit executor root type next)

/-- A thread starts a bounded effect, on an executor that runs it at once. -/
structure StartsAt {α : Type} (run : Nat → World σ) (i n : Nat) (thread : Thread σ)
    (root : Node σ) (keep : Code σ α → Activation σ) (base : List (Activation σ)) : Prop where
  steps : StepsAt run n i thread
  calm : thread.panicking = none
  asks : ∃ activation code executor, thread.control = activation :: base ∧
    activation.Holds keep code ∧ Begins executor root code ∧
    (run n).heap.isInline executor = true
  bounded : root.Bounded

variable {α : Type} {keep : Code σ α → Activation σ} {executor : ExecutorId} {effect : Node σ}

theorem Begins.isOver {code : Code σ α} (begins : Begins executor effect code) :
    code.isOver = false := by
  cases begins <;> rfl

/-- The root fiber runs at once, in a drain of its own. -/
theorem Begins.exists_perform {code : Code σ α} (begins : Begins executor effect code)
    (keep : Code σ α → Activation σ) (thread : Thread σ) (heap : Heap σ)
    (inline : heap.isInline executor = true) (calm : thread.panicking = none) :
    ∃ (heap' : Heap σ) (rest : Code σ α) (observers : List (Observer σ)),
      heap'.fibers = heap.fibers ∧ (∀ observer ∈ observers, observer.Modest) ∧
      Machine.perform heap thread keep code =
        (heap'.begun executor effect observers thread.id,
          drainer (thread.push (keep rest)) {} (.loop heap.nextFiber (.node effect) [] ::
            .draining thread.pending :: keep rest :: thread.control)) := by
  cases begins with
  | launch next =>
    exact ⟨heap, _, [], rfl, List.forall_mem_nil _, Machine.start_newRoot heap inline _ _ calm⟩
  | launchWith modest next =>
    exact ⟨heap, _, _, rfl, List.forall_mem_singleton.mpr (.call modest),
      Machine.start_newRoot heap inline _ _ calm⟩
  | submit type next =>
    exact ⟨heap.addMailbox, _, _, rfl, List.forall_mem_singleton.mpr (.answer type _),
      Machine.start_newRoot heap.addMailbox inline _ _ calm⟩

theorem StartsAt.exists_begun (starts : StartsAt run i n thread effect keep base) (h : Run run) :
    (run (n + 1)).Bounded (run n).heap.nextFiber ∧ ∃ thread' rest,
      (run (n + 1)).threads[i]? = some thread' ∧ thread'.panicking = none ∧
      thread'.control = .loop (run n).heap.nextFiber (.node effect) [] ::
        .draining thread.pending :: keep rest :: base := by
  obtain ⟨steps, calm, ⟨activation, code, executor, control, holds, begins, inline⟩, bounded⟩ :=
    starts
  obtain ⟨heap', rest, observers, fibers, modest, performed⟩ := begins.exists_perform keep
    { thread with control := base } (run n).heap inline calm
  have stepped := Machine.step_of_next? (run n).heap calm control
  rw [Machine.advance_of_holds holds begins.isOver, performed] at stepped
  have after := steps.after
  rw [stepped] at after
  have there := places_of_loop (h.owned (n + 1)) (List.mem_of_getElem? after) List.mem_cons_self
  refine ⟨⟨?_, ?_, ?_⟩, _, rest, after, rfl, rfl⟩
  · exact ((h.owned (n + 1)).placed there).1
  · rw [there]
    rintro place mem
    cases Multiset.mem_singleton.mp mem
    exact .active (.node bounded) (List.forall_mem_nil _)
  · have present : (run (n + 1)).heap.fiber? (run n).heap.nextFiber =
        some ⟨.running observers, {}, [], executor, none⟩ := by
      rw [steps.heap, stepped, Heap.fiber?, Heap.fibers_begun, Heap.fibers_launch, if_pos]
      rw [fibers]
      rfl
    rw [Heap.observers, Heap.progress, present]
    exact modest

/-! ### All of it -/

/-- A loop goes on from one moment to another, at which its batch is over: the fiber has ended, it
waits for a callback, or it moves to another executor. Otherwise an executor has refused on the way
what the interpreter handed to it. -/
structure BatchEnds (run : Nat → World σ) (i : Nat) (id : FiberId) (below : List (Activation σ))
    (first last : Nat) : Prop where
  le : first ≤ last
  goes : ∀ m, first ≤ m → m ≤ last → Looping run i id below m
  ends : RefusedSince run i first last ∨ Finishes run i id below last

/-- A drain goes on from one moment to another, at which its queue is empty. Otherwise an executor
has refused on the way what the interpreter handed to it, or the drain has come to a batch of a
fiber that is not of these families. -/
structure DrainEnds (run : Nat → World σ) (since : Nat) (members : List FiberId) (i : Nat)
    (outer : Option (Queue (Batch σ))) (below : List (Activation σ)) (first last : Nat) : Prop where
  le : first ≤ last
  goes : ∀ m, first ≤ m → m ≤ last → Draining run i outer below m
  ends : RefusedSince run i first last ∨ Drained run i outer below last ∨
    Admits run since members i outer below last

/-- What bounded effects come to in a run, whatever else goes on in it: interruptions may be
requested at any time, user code may fail and panic, and other threads may do anything. -/
structure Terminates (run : Nat → World σ) : Prop where
  /-- Bounded fibers, and all that come of their forks, take finitely many steps together. -/
  steps : ∀ since members, (∀ id ∈ members, (run since).Bounded id) →
    ∃ last, ∀ m, last ≤ m → ∀ id, Family run since members id → ¬Proceeds run id m
  /-- Every loop of such a fiber comes to the end of its batch. -/
  batches : ∀ since members, (∀ id ∈ members, (run since).Bounded id) →
    ∀ i n thread id focus stack below, Scheduled run i → since ≤ n → Family run since members id →
      (run n).threads[i]? = some thread → thread.panicking = none →
      thread.control = .loop id focus stack :: below → ∃ last, BatchEnds run i id below n last
  /-- Every drain that runs batches of such fibers comes to an empty queue. -/
  drains : ∀ since members, (∀ id ∈ members, (run since).Bounded id) →
    ∀ i n thread id focus stack outer below, Scheduled run i → since ≤ n →
      Family run since members id → (run n).threads[i]? = some thread → thread.panicking = none →
      thread.control = .loop id focus stack :: .draining outer :: below →
      ∃ last, DrainEnds run since members i outer below n last
  /-- So it is with the drain of a bounded effect that is started on an executor that runs it at
  once, with all the fibers that it forks and, among any bounded fibers, those that it wakes. -/
  starts : ∀ n members, (∀ id ∈ members, (run (n + 1)).Bounded id) →
    ∀ (α : Type) i thread root (keep : Code σ α → Activation σ) base, Scheduled run i →
      StartsAt run i n thread root keep base → ∃ thread' rest last,
        (run (n + 1)).threads[i]? = some thread' ∧
        thread'.control = .loop (run n).heap.nextFiber (.node root) [] ::
          .draining thread.pending :: keep rest :: base ∧
        DrainEnds run (n + 1) ((run n).heap.nextFiber :: members) i thread.pending
          (keep rest :: base) (n + 1) last

theorem Run.exists_batchEnds (h : Run run) (fresh : (run 0).Fresh) (scheduled : Scheduled run i)
    (bounded : (run n).Bounded id) (known : (run n).threads[i]? = some thread)
    (calm : thread.panicking = none) {focus : Focus σ} {stack : List (Frame σ)}
    (control : thread.control = .loop id focus stack :: below) :
    ∃ last, BatchEnds run i id below n last := by
  obtain ⟨k, still⟩ := bounded.ceases h fresh
  have guarded := Thread.not_escaping_of_calm calm
  have running := h.pending_isSome fresh known
    (drainsOf_loop_ne_nil (h.reachable n) (List.mem_of_getElem? known) control)
  have on : On run i n ([] ++ .loop id focus stack :: below) := ⟨thread, known, control, running⟩
  obtain ⟨last, le, ends⟩ := on.finishes h fresh scheduled known guarded bounded
    (fun m late => still m late id .root) le_rfl (List.forall_mem_nil _)
  have ends : ∃ m, n ≤ m ∧ (RefusedSince run i n m ∨ Finishes run i id below m) :=
    ⟨last, le, ends.imp_right And.left⟩
  have begins : Looping run i id below n := ⟨thread, [], focus, stack, known, control⟩
  obtain ⟨last, le, ends, goes⟩ := exists_first ends begins
    fun m le looping goes => looping.next h known guarded le goes
  exact ⟨last, le, goes, ends⟩

theorem Run.exists_drainEnds (h : Run run) (fresh : (run 0).Fresh) (scheduled : Scheduled run i)
    (bounded : ∀ id ∈ members, (run first).Bounded id) (le : first ≤ n)
    (family : Family run first members id) (known : (run n).threads[i]? = some thread)
    (calm : thread.panicking = none) {focus : Focus σ} {stack : List (Frame σ)}
    (control : thread.control = .loop id focus stack :: .draining outer :: below) :
    ∃ last, DrainEnds run first members i outer below n last := by
  obtain ⟨k, still⟩ := exists_still h fresh bounded
  have guarded := Thread.not_escaping_of_calm calm
  have begins : Draining run i outer below n := ⟨thread, [.loop id focus stack], known, control⟩
  obtain ⟨last, le, ends, goes⟩ := exists_first
    (exists_drained h fresh scheduled bounded still family le known control calm) begins
    fun m le draining goes => draining.next h fresh known guarded le fun ends =>
      goes (ends.imp_right .inl)
  exact ⟨last, le, goes, ends⟩

/-- Batches and drains of bounded effects end. -/
theorem batches_and_drains_end (h : Run run) (fresh : (run 0).Fresh) : Terminates run where
  steps since members bounded := exists_still h fresh bounded
  batches since members bounded i n thread id focus stack below scheduled le family known calm
      control := by
    have there := places_of_loop (h.owned n) (List.mem_of_getElem? known)
      (control ▸ List.mem_cons_self)
    have own := family.bounded h bounded le (there.trans_ne (Multiset.singleton_ne_zero _))
    exact h.exists_batchEnds fresh scheduled own known calm control
  drains since members bounded i n thread id focus stack outer below scheduled le family known calm
      control :=
    h.exists_drainEnds fresh scheduled bounded le family known calm control
  starts n members bounded α i thread root keep base scheduled starts := by
    obtain ⟨own, thread', rest, known, calm, control⟩ := starts.exists_begun h
    have all : ∀ id ∈ (run n).heap.nextFiber :: members, (run (n + 1)).Bounded id :=
      List.forall_mem_cons.mpr ⟨own, bounded⟩
    obtain ⟨last, ends⟩ := h.exists_drainEnds fresh scheduled all le_rfl
      ⟨_, List.mem_cons_self, .root⟩ known calm control
    exact ⟨thread', rest, last, known, control, ends⟩

/-- An effect that forks a fiber, which repeats an effect, and joins it under a finalizer. -/
def relayed : Effect Nat .int :=
  ((Effect.succeedNow 5 : Effect Nat .int).repeated 2).fork.flatMap fun id =>
    .done ((Effect.join (⟨id⟩ : Fiber .int)).ensuring (Effect.unit : Effect Nat .unit))

theorem bounded_relayed : relayed.Bounded :=
  ((Effect.bounded_succeedNow 5).repeated 2).fork.flatMap fun _ =>
    Action.builds_done ((Effect.bounded_join _).ensuring Effect.bounded_unit)

/-- The drain of an effect that a trial starts comes to its end: its queue is empty at last. -/
theorem batches_and_drains_end_relayed :
    let run := staged 0 (launched relayed)
    (run 0).Fresh ∧ StartsAt run 0 1 (run 1).main relayed.node .program [] ∧
      (∃ last, DrainEnds run 2 [⟨1⟩] 0 none [.program (.done ())] 2 last) ∧
      Drained run 0 none [.program (.done ())] 44 := by
  intro run
  have scheduled : Scheduled run 0 := fun n => ⟨n + 1, _, n.le_succ, rfl, rfl, rfl⟩
  have starts : StartsAt run 0 1 (run 1).main relayed.node .program [] :=
    ⟨⟨rfl, rfl, rfl⟩, rfl, ⟨_, _, ⟨0⟩, rfl, .program _, .launch _, rfl⟩, bounded_relayed⟩
  have terminates := batches_and_drains_end (run_staged 0 (launched relayed)) (fresh_bare 0)
  obtain ⟨thread, rest, last, known, control, ends⟩ := terminates.starts 1 []
    (List.forall_mem_nil _) _ 0 _ _ _ _ scheduled starts
  have own : Activation.program rest = .program (.done ()) := by
    cases known
    exact (List.cons.inj (List.cons.inj (List.cons.inj control).2).2).1.symm
  rw [own] at ends
  exact ⟨fresh_bare 0, starts, ⟨last, ends⟩, (run 44).main, {}, rfl, rfl, rfl, rfl, rfl⟩

end World

end Fibers
