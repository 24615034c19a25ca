import Fibers.Effect.Basic
import Fibers.Proofs.Strand.Silence
import Fibers.Proofs.World.Meeting
import Fibers.Proofs.World.Propagation

/-!
# Waiting for an exit

A fiber awaits the exit of another one, which may end before or after it is asked, on any thread.

## Main results

`World.Follows.awaits`: the fiber goes on with that exit, or is still waiting for it.
`World.Awaits.told`: if the other fiber has ended, a thread is about to call the one that waits.

## Proof strategy

The callback is made by the fiber that waits and used for nothing else (`World.Unshared`). So
whatever completes it is a call of the one observer that was registered with it
(`World.CompletesAt.exit_of_sole`), and `World.Awaits.next` moves on from there.
-/

namespace Fibers

variable {σ : Type}

namespace World

open Strand

variable {run : Nat → World σ} {id target : FiberId} {type : Ty} {n i : Nat}
  {stack stack' : List (Frame σ)} {callback : CallbackId}

/-! ### Callbacks of one's own -/

/-- A fiber makes a callback in order to await an exit. -/
def Awaited (run : Nat → World σ) (id : FiberId) (callback : CallbackId) : Prop :=
  ∃ n target type stack, (run n).places id =
    {.active (.registering callback (.observe target type callback .done)) stack}

/-- The callbacks that a fiber makes in order to await exits are used by no other code. A callback
is a capability that only its registration is handed, and the registration of an await hands it to
the observer of the exit alone; here a callback is a number, so this has to be said. -/
def Unshared (run : Nat → World σ) (id : FiberId) : Prop :=
  ∀ callback, Awaited run id callback → ∀ n i thread activation, StepsAt run n i thread →
    thread.next? = some activation → activation.uses? = some callback →
    ∃ code stack, activation = .loop id (.registering callback code) stack

/-- Code that uses a callback of a fiber's own is the registration of the fiber. -/
theorem Unshared.places (unshared : Unshared run id) (h : Run run)
    (awaited : Awaited run id callback) {thread : Thread σ} {activation : Activation σ}
    (steps : StepsAt run n i thread) (next : thread.next? = some activation)
    (uses : activation.uses? = some callback) :
    ∃ code stack, activation = .loop id (.registering callback code) stack ∧
      (run n).places id = {.active (.registering callback code) stack} ∧
      ∃ state, (run n).heap.suspension? callback = some ⟨id, state⟩ := by
  obtain ⟨code, stack, rfl⟩ := unshared callback awaited n i thread activation steps next uses
  obtain ⟨_, rest, control⟩ := Thread.next?_eq_some_iff.mp next
  have known := List.mem_of_getElem? steps.before
  have mem : Activation.loop id (.registering callback code) stack ∈ thread.control :=
    control ▸ List.mem_cons_self
  obtain ⟨⟨_, state⟩, present, rfl, _⟩ := (h.owned n).meeting _ ⟨thread, known, mem⟩
  exact ⟨code, stack, rfl, places_of_loop (h.owned n) known mem, state, present⟩

/-- In the registration of an await, a callback is used for one exit. -/
def Asking (target : FiberId) (type : Ty) (callback : CallbackId) (code : Code σ Unit) : Prop :=
  code = .observe target type callback .done ∨ code = .done ()

/-- A fiber has one place, so the code there is all that its registration may be. -/
theorem Asking.of_place {code : Code σ Unit} (asks : Asking target type callback code)
    (place : (run n).places id = {.active (.registering callback code) stack}) :
    ∀ code stack, (run n).places id = {.active (.registering callback code) stack} →
      Asking target type callback code := by
  intro code' stack' place'
  cases Multiset.singleton_inj.mp (place.symm.trans place')
  exact asks

theorem Sole.next (sole : Sole run callback target type n) (h : Run run)
    (unshared : Unshared run id) (awaited : Awaited run id callback)
    (asking : ∀ code stack, (run n).places id = {.active (.registering callback code) stack} →
      Asking target type callback code) :
    Sole run callback target type (n + 1) := by
  intro k before i other type' registers
  rcases Nat.lt_succ_iff_lt_or_eq.mp before with old | rfl
  · exact sole k old i other type' registers
  · obtain ⟨thread, activation, target', steps, next, registered, own⟩ := registers
    obtain ⟨code, stack, rfl, place, _⟩ :=
      unshared.places h awaited steps next (Activation.uses?_of_registered? registered)
    rcases asking code stack place with rfl | rfl
    · simp only [Activation.registered?, Action.registered?] at registered
      split at registered
      next =>
        cases registered
        exact ⟨own.symm, rfl⟩
      next => cases registered
    · cases registered

/-- Whatever completes the callback of an await is a call with the exit that is awaited. -/
theorem CompletesAt.exit_of_sole {value : Erased} (completes : CompletesAt run i n callback value)
    (h : Run run) (observation : Observation run) (unshared : Unshared run id)
    (awaited : Awaited run id callback) (sole : Sole run callback target type n)
    (asking : ∀ code stack, (run n).places id = {.active (.registering callback code) stack} →
      Asking target type callback code) :
    ∃ exit depth, (run n).heap.poll target = some exit ∧
      value = ⟨.exit type, exit.recover type⟩ ∧
      CallsAt run i depth n (exit, .resume type callback) := by
  obtain ⟨thread, activation, steps, next, completes⟩ := completes
  rcases Activation.completes?_cases completes with uses | ⟨exit, type', rest, rfl, rfl⟩
  · obtain ⟨code, stack, rfl, place, _⟩ := unshared.places h awaited steps next uses
    rcases asking code stack place with rfl | rfl
    · cases completes
    · cases completes
  · obtain ⟨calm, below, control⟩ := Thread.next?_eq_some_iff.mp next
    have calls : CallsAt run i below.length n (exit, .resume type' callback) :=
      ⟨thread, rest, below, steps, calm, control, rfl⟩
    obtain ⟨rfl, polled⟩ := calls.exit_of_sole h observation sole
    exact ⟨exit, _, polled, rfl, calls⟩

/-! ### The stages of an await -/

/-- A fiber has asked for the exit of another one, and uses the callback for nothing else. -/
structure Asked (run : Nat → World σ) (id : FiberId) (callback : CallbackId) (target : FiberId)
    (type : Ty) (n : Nat) : Prop where
  awaited : Awaited run id callback
  sole : Sole run callback target type n
  registered : ∃ k < n, ∃ i state, RegistersAt run i target k (.resume type callback) ∧
    (run k).heap.suspension? callback = some ⟨id, state⟩

/-- The state of a suspension whose registration is still running: the exit may be there. -/
def Comes (run : Nat → World σ) (target : FiberId) (type : Ty) (n : Nat) (state : Rendezvous σ) :
    Prop :=
  state = .registering ∨ ∃ exit, (run n).heap.poll target = some exit ∧
    state = .completed ⟨.exit type, exit.recover type⟩

/-- Where a fiber stands that awaits an exit. -/
inductive Awaits (run : Nat → World σ) (id target : FiberId) (type : Ty) (stack : List (Frame σ))
    (n : Nat) : Place σ → Prop where
  | polling : Awaits run id target type stack n
      (.active (.node (Effect.awaitExit ⟨target⟩ : Effect σ (.exit type)).node) stack)
  | asking {callback : CallbackId} {state : Rendezvous σ} (awaited : Awaited run id callback)
      (sole : Sole run callback target type n)
      (present : (run n).heap.suspension? callback = some ⟨id, state⟩)
      (comes : Comes run target type n state) :
      Awaits run id target type stack n
        (.active (.registering callback (.observe target type callback .done)) stack)
  | asked {callback : CallbackId} {state : Rendezvous σ}
      (asked : Asked run id callback target type n)
      (present : (run n).heap.suspension? callback = some ⟨id, state⟩)
      (comes : Comes run target type n state) :
      Awaits run id target type stack n (.active (.registering callback (.done ())) stack)
  | suspended {callback : CallbackId} (asked : Asked run id callback target type n) :
      Awaits run id target type stack n (.suspended callback stack)
  | resumed {exit : Exit Erased} (polled : (run n).heap.poll target = some exit) :
      Awaits run id target type stack n
        (.active (.node (.succeed ⟨.exit type, exit.recover type⟩)) stack)

theorem Comes.next {state state' : Rendezvous σ} (comes : Comes run target type n state)
    (h : Run run)
    (turns : state' = state ∨ ∃ exit, (run n).heap.poll target = some exit ∧
      state' = state.complete ⟨.exit type, exit.recover type⟩) :
    Comes run target type (n + 1) state' := by
  have old {exit : Exit Erased} (polled : (run n).heap.poll target = some exit) :
      (run (n + 1)).heap.poll target = some exit := h.poll_stays n.le_succ polled
  rcases turns with rfl | ⟨exit, polled, rfl⟩
  · rcases comes with rfl | ⟨exit, polled, rfl⟩
    · exact .inl rfl
    · exact .inr ⟨exit, old polled, rfl⟩
  · rcases comes with rfl | ⟨first, polled', rfl⟩
    · exact .inr ⟨exit, old polled, rfl⟩
    · exact .inr ⟨first, old polled', rfl⟩

theorem Asked.next (asked : Asked run id callback target type n) (h : Run run)
    (unshared : Unshared run id)
    (asking : ∀ code stack, (run n).places id = {.active (.registering callback code) stack} →
      Asking target type callback code) :
    Asked run id callback target type (n + 1) := by
  obtain ⟨awaited, sole, k, before, registered⟩ := asked
  exact ⟨awaited, sole.next h unshared awaited asking, k, Nat.lt_succ_of_lt before, registered⟩

/-- What a fiber that is registering for an exit finds, if its own loop takes no step. -/
theorem Comes.still {state : Rendezvous σ} {code : Code σ Unit} (h : Run run) (tame : Tame run)
    (observation : Observation run) (unshared : Unshared run id)
    (awaited : Awaited run id callback) (sole : Sole run callback target type n)
    (present : (run n).heap.suspension? callback = some ⟨id, state⟩)
    (comes : Comes run target type n state) (asking : Asking target type callback code)
    (place : (run n).places id = {.active (.registering callback code) stack})
    (other : ∀ i thread, StepsAt run n i thread →
      thread.next? ≠ some (.loop id (.registering callback code) stack)) :
    ∃ state', (run (n + 1)).heap.suspension? callback = some ⟨id, state'⟩ ∧
      Comes run target type (n + 1) state' := by
  have asking' := asking.of_place place
  obtain ⟨state', after, rfl | ⟨i, turns⟩⟩ := h.turns tame present
  · exact ⟨_, after, comes.next h (.inl rfl)⟩
  · refine ⟨state', after, comes.next h ?_⟩
    cases turns with
    | still => exact .inl rfl
    | completed completes =>
      obtain ⟨exit, _, polled, rfl, _⟩ :=
        completes.exit_of_sole h observation unshared awaited sole asking'
      exact .inr ⟨exit, polled, rfl⟩
    | ended meeting steps next parks =>
      obtain ⟨_, rest, control⟩ := Thread.next?_eq_some_iff.mp next
      have there := places_of_loop (h.owned n) (List.mem_of_getElem? steps.before)
        (control ▸ List.mem_cons_self)
      cases Multiset.singleton_inj.mp (place.symm.trans there)
      exact absurd next (other i _ steps)

/-- A fiber that starts to await an exit has a callback that nobody knows. -/
theorem awaits_of_polling (h : Run run) (tame : Tame run) (unshared : Unshared run id)
    (undue : (run n).heap.shouldInterrupt id = false)
    (before : (run n).places id =
      {.active (.node (Effect.awaitExit ⟨target⟩ : Effect σ (.exit type)).node) stack})
    (after : (run (n + 1)).places id =
      {.active (.registering callback (.observe target type callback .done)) stack}) :
    Awaits run id target type stack (n + 1)
      (.active (.registering callback (.observe target type callback .done)) stack) := by
  obtain ⟨i, thread, steps, next⟩ := h.steps_of_changes tame before after nofun nofun
  obtain ⟨calm, rest, control⟩ := Thread.next?_eq_some_iff.mp next
  -- The step makes a suspension, and the callback is its number.
  have place := steps.places_of_async h next undue
  cases Multiset.singleton_inj.mp (after.symm.trans place)
  have awaited : Awaited run id (run n).heap.nextCallback := ⟨n + 1, target, type, stack, after⟩
  refine .asking awaited ?_ ?_ (.inl rfl)
  · intro k before i other type' registers
    obtain ⟨other', activation, target', steps, next, registered, _⟩ := registers
    obtain ⟨_, _, _, _, state, present⟩ :=
      unshared.places h awaited steps next (Activation.uses?_of_registered? registered)
    obtain ⟨state', there⟩ := h.exists_suspension tame present (Nat.le_of_lt_succ before)
    exact absurd (Array.getElem?_eq_some_iff.mp there).1 (Nat.lt_irrefl _)
  · rw [steps.suspension?_eq, Thread.suspensionsAfter, control, calm]
    simp only [Activation.suspensionsAfter, Effect.awaitExit, Effect.async, undue]
    exact Array.getElem?_push_size

/-- A fiber that asks for an exit has asked for it, once its loop has taken a step. -/
theorem awaits_of_asking (h : Run run) (tame : Tame run) (observation : Observation run)
    (unshared : Unshared run id) (knows : (run n).heap.Knows target) {state : Rendezvous σ}
    (awaited : Awaited run id callback) (sole : Sole run callback target type n)
    (present : (run n).heap.suspension? callback = some ⟨id, state⟩)
    (comes : Comes run target type n state)
    (place : (run n).places id =
      {.active (.registering callback (.observe target type callback .done)) stack}) :
    ∃ place', (run (n + 1)).places id = {place'} ∧
      Awaits run id target type stack (n + 1) place' := by
  have asks : Asking target type callback (.observe target type callback .done : Code σ Unit) :=
    .inl rfl
  have sole' := sole.next h unshared awaited (asks.of_place place)
  by_cases own : ∃ i thread, StepsAt run n i thread ∧
      thread.next? = some (.loop id (.registering callback (.observe target type callback .done))
        stack)
  -- The loop observes the fiber, and its registration is over with it.
  · obtain ⟨i, thread, steps, next⟩ := own
    obtain ⟨calm, rest, control⟩ := Thread.next?_eq_some_iff.mp next
    obtain ⟨fiber, known⟩ := knows.exists_fiber
    have registers : RegistersAt run i target n (.resume type callback) := by
      refine ⟨thread, _, target, steps, next, ?_, rfl⟩
      simp [Activation.registered?, Action.registered?, known]
    have mem : Activation.loop id (.registering callback (.done ())) stack ∈
        (Machine.step (run n).heap thread).2.control := by
      rw [Machine.step_of_next? _ calm control]
      obtain ⟨begun, _, control'⟩ := (Machine.grows_observe (run n).heap
        (({ thread with control := rest } : Thread σ).push
          (.loop id (.registering callback (.done ())) stack)) target
        (.resume type callback)).control
      exact control' ▸ List.mem_append_right _ List.mem_cons_self
    have after : (run (n + 1)).heap.suspension? callback = some ⟨id, state⟩ := by
      rw [steps.suspension?_eq, Thread.suspensionsAfter, control, calm]
      exact present
    exact ⟨_, places_of_loop (h.owned (n + 1)) (List.mem_of_getElem? steps.after) mem,
      .asked ⟨awaited, sole', n, n.lt_succ_self, i, state, registers, present⟩ after
        (comes.next h (.inl rfl))⟩
  · have other : ∀ i thread, StepsAt run n i thread → thread.next? ≠
        some (.loop id (.registering callback (.observe target type callback .done)) stack) :=
      fun i thread steps next => own ⟨i, thread, steps, next⟩
    obtain ⟨state', after, comes'⟩ := comes.still h tame observation unshared awaited sole present
      asks place other
    exact ⟨_, h.places_of_still tame place (by rintro _ ⟨⟩) other,
      .asking awaited sole' after comes'⟩

/-- A fiber that has asked for an exit finds it, or leaves its frames. -/
theorem awaits_of_asked (h : Run run) (tame : Tame run) (observation : Observation run)
    (unshared : Unshared run id) {state : Rendezvous σ}
    (asked : Asked run id callback target type n)
    (present : (run n).heap.suspension? callback = some ⟨id, state⟩)
    (comes : Comes run target type n state)
    (place : (run n).places id = {.active (.registering callback (.done ())) stack}) :
    ∃ place', (run (n + 1)).places id = {place'} ∧
      (Awaits run id target type stack (n + 1) place' ∨
        ∃ exit, (run (n + 1)).heap.poll target = some exit ∧
          place' = .active (.value ⟨.exit type, exit.recover type⟩) stack) := by
  have asks : Asking target type callback (.done () : Code σ Unit) := .inr rfl
  have asked' := asked.next h unshared (asks.of_place place)
  by_cases own : ∃ i thread, StepsAt run n i thread ∧
      thread.next? = some (.loop id (.registering callback (.done ())) stack)
  · obtain ⟨i, thread, steps, next⟩ := own
    obtain ⟨parked, completed⟩ := steps.parks h next present
    rcases comes with rfl | ⟨exit, polled, rfl⟩
    · exact ⟨_, places_of_parked (h.owned (n + 1)) parked, .inl (.suspended asked')⟩
    · exact ⟨_, completed _ rfl, .inr ⟨exit, h.poll_stays n.le_succ polled, rfl⟩⟩
  · have other : ∀ i thread, StepsAt run n i thread → thread.next? ≠
        some (.loop id (.registering callback (.done ())) stack) :=
      fun i thread steps next => own ⟨i, thread, steps, next⟩
    obtain ⟨state', after, comes'⟩ := comes.still h tame observation unshared asked.awaited
      asked.sole present asks place other
    exact ⟨_, h.places_of_still tame place (by rintro _ ⟨⟩) other,
      .inl (.asked asked' after comes')⟩

/-- A fiber that waits for an exit goes on with it when it is called, unless it is lost. -/
theorem awaits_of_suspended (h : Run run) (tame : Tame run) (observation : Observation run)
    (unshared : Unshared run id) (asked : Asked run id callback target type n)
    (place : (run n).places id = {.suspended callback stack})
    (there : (run (n + 1)).places id ≠ 0) :
    ∃ place', (run (n + 1)).places id = {place'} ∧
      Awaits run id target type stack (n + 1) place' := by
  have asking : ∀ code stack, (run n).places id = {.active (.registering callback code) stack} →
      Asking target type callback code := by
    intro code stack' place'
    cases Multiset.singleton_inj.mp (place.symm.trans place')
  have asked' := asked.next h unshared asking
  have parked := suspension?_of_places place
  obtain ⟨state', after, rfl | ⟨i, turns⟩⟩ := h.turns tame parked
  · exact ⟨_, places_of_parked (h.owned (n + 1)) after, .suspended asked'⟩
  · cases turns with
    | still => exact ⟨_, places_of_parked (h.owned (n + 1)) after, .suspended asked'⟩
    | completed completes =>
      obtain ⟨exit, depth, polled, rfl, calls⟩ :=
        completes.exit_of_sole h observation unshared asked.awaited asked.sole asking
      have resumed := (calls.resumes h parked).2.resolve_right there
      exact ⟨_, resumed, .resumed (h.poll_stays n.le_succ polled)⟩
    | ended meeting => cases meeting

/-! ### Following a fiber that awaits an exit -/

variable {strands : Nat → Strand σ} {feed : Nat → Option (Option (Input σ))} {first last : Nat}
  {holding : Holding}

theorem Run.knows_stays (h : Run run) {m : Nat} (later : n ≤ m) (knows : (run n).heap.Knows id) :
    (run m).heap.Knows id := by
  induction m, later using Nat.le_induction with
  | base => exact knows
  | succ m _ ih => exact (h.moves m).knows ih

/-- The next stage of an await, as it is seen in the fiber. -/
theorem Awaits.next (awaits : Awaits run id target type stack n (strands n).place)
    (h : Run run) (tame : Tame run) (observation : Observation run) (unshared : Unshared run id)
    (follows : Follows run id strands first last) (fed : Fed strands feed first last)
    (undue : (strands n).holding.flags.shouldInterrupt = false) (low : first ≤ n) (high : n < last)
    (knows : (run n).heap.Knows target) :
    (strands (n + 1)).holding = (strands n).holding ∧
      (Awaits run id target type stack (n + 1) (strands (n + 1)).place ∨
        ∃ exit, (run (n + 1)).heap.poll target = some exit ∧
          (strands (n + 1)).place = .active (.value ⟨.exit type, exit.recover type⟩) stack) := by
  have shows' := follows.seen n low high.le
  have later := follows.seen (n + 1) (Nat.le_succ_of_le low) high
  have now := fed n low high
  have kept := fed.holding_eq low high
  -- Where the machine has the fiber, there it is seen.
  have seen {place : Place σ} (there : (run (n + 1)).places id = {place}) :
      (strands (n + 1)).place = place :=
    follows.place_eq (Nat.le_succ_of_le low) high there
  generalize strands n = strand at awaits shows' now kept undue
  obtain ⟨place, holding, calling⟩ := strand
  cases awaits with
  | polling =>
    cases given : feed n with
    | none =>
      rw [given] at now
      exact ⟨by rw [now], .inl (by rw [now]; exact .polling)⟩
    | some input =>
      rw [given] at now
      -- No interruption is due, so what is fed is the new callback.
      obtain ⟨_, meaning⟩ := now.of_polling.resolve_left fun due => by cases undue.symm.trans due.1
      generalize strands (n + 1) = after at meaning later
      cases meaning with
      | async _ callback =>
        exact ⟨rfl, .inl (awaits_of_polling h tame unshared (shows'.shouldInterrupt.trans undue)
          shows'.place later.place)⟩
  | asking awaited sole present comes =>
    obtain ⟨place', there, awaits⟩ := awaits_of_asking h tame observation unshared knows awaited
      sole present comes shows'.place
    exact ⟨kept nofun, .inl (seen there ▸ awaits)⟩
  | asked asked present comes =>
    obtain ⟨place', there, awaits | ⟨exit, polled, rfl⟩⟩ :=
      awaits_of_asked h tame observation unshared asked present comes shows'.place
    · exact ⟨kept nofun, .inl (seen there ▸ awaits)⟩
    · exact ⟨kept nofun, .inr ⟨exit, polled, seen there⟩⟩
  | suspended asked =>
    -- The strand shows the fiber at the next moment, so it is not lost.
    have somewhere : (run (n + 1)).places id ≠ 0 := by
      rw [show (run (n + 1)).places id = _ from later.place]
      exact Multiset.singleton_ne_zero _
    obtain ⟨place', there, awaits⟩ :=
      awaits_of_suspended h tame observation unshared asked shows'.place somewhere
    exact ⟨kept nofun, .inl (seen there ▸ awaits)⟩
  | @resumed exit polled =>
    have polled' := h.poll_stays n.le_succ polled
    cases given : feed n with
    | none =>
      rw [given] at now
      exact ⟨by rw [now], .inl (by rw [now]; exact .resumed polled')⟩
    | some input =>
      rw [given] at now
      have moved := now.of_silent undue (.succeed _ _ _ _)
      exact ⟨by rw [moved], .inr ⟨exit, polled', by rw [moved]⟩⟩

/-- A fiber awaits an exit through a stretch, up to its last moment. -/
def Waits (run : Nat → World σ) (id target : FiberId) (type : Ty) (stack : List (Frame σ))
    (strands : Nat → Strand σ) (first last : Nat) : Prop :=
  ∀ n, first ≤ n → n < last → Awaits run id target type stack n (strands n).place

/-- A fiber that awaits an exit goes on with it, or is still waiting. -/
theorem Follows.awaits (follows : Follows run id strands first last) (h : Run run)
    (tame : Tame run) (observation : Observation run) (unshared : Unshared run id)
    (fed : Fed strands feed first last)
    (undue : ∀ n, first ≤ n → n ≤ last → (strands n).holding.flags.shouldInterrupt = false)
    {calling : Bool} (low : first ≤ n) (high : n ≤ last) (knows : (run n).heap.Knows target)
    (starts : strands n = ⟨.active (.node (Effect.awaitExit ⟨target⟩ : Effect σ (.exit type)).node)
      stack, holding, calling⟩) :
    (∃ m exit calling', n ≤ m ∧ m ≤ last ∧ Waits run id target type stack strands n m ∧
        (run m).heap.poll target = some exit ∧
        strands m = ⟨.active (.value ⟨.exit type, exit.recover type⟩) stack, holding, calling'⟩) ∨
      Awaits run id target type stack last (strands last).place := by
  -- Moment after moment, either the exit has come, or the await is in its next stage.
  suffices ∀ m, n ≤ m → m ≤ last →
      (∃ k exit calling', n ≤ k ∧ k ≤ m ∧ Waits run id target type stack strands n k ∧
        (run k).heap.poll target = some exit ∧
        strands k = ⟨.active (.value ⟨.exit type, exit.recover type⟩) stack, holding, calling'⟩) ∨
      (strands m).holding = holding ∧ Waits run id target type stack strands n (m + 1) by
    exact (this last high le_rfl).imp_right fun waiting => waiting.2 last high last.lt_succ_self
  intro m later
  induction m, later using Nat.le_induction with
  | base =>
    refine fun _ => .inr ⟨by rw [starts], fun k low' high' => ?_⟩
    obtain rfl : k = n := le_antisymm (Nat.le_of_lt_succ high') low'
    rw [starts]
    exact .polling
  | succ m later ih =>
    intro high'
    rcases ih (Nat.le_of_succ_le high') with
      ⟨k, exit, calling', low', le, found⟩ | ⟨same, waits⟩
    · exact .inl ⟨k, exit, calling', low', Nat.le_succ_of_le le, found⟩
    · have awaits := waits m later m.lt_succ_self
      obtain ⟨kept, awaits | ⟨exit, polled, place⟩⟩ :=
        awaits.next h tame observation unshared follows fed
          (undue m (low.trans later) (Nat.le_of_succ_le high')) (low.trans later) high'
          (h.knows_stays later knows)
      · refine .inr ⟨kept.trans same, fun k low' high' => ?_⟩
        rcases Nat.lt_succ_iff_lt_or_eq.mp high' with old | rfl
        · exact waits k low' old
        · exact awaits
      · refine .inl ⟨m + 1, exit, (strands (m + 1)).calling, Nat.le_succ_of_le later, le_rfl,
          waits, polled, ?_⟩
        rw [← place, ← kept.trans same]

/-- A fiber that awaits an exit has not come down to any frames. -/
theorem Awaits.unreached {place : Place σ} (awaits : Awaits run id target type stack n place)
    {frames : List (Frame σ)} : ∀ exit, ¬place.Reaches frames exit := by
  cases awaits <;> exact fun _ => nofun

/-- If the other fiber has ended, a fiber that waits for its exit is about to be told. -/
theorem Awaits.told {place : Place σ} (awaits : Awaits run id target type stack n place)
    (h : Run run) (tame : Tame run) (observation : Observation run)
    (there : (run n).places id = {place}) (waits : place = .suspended callback stack')
    {exit : Exit Erased} (ended : (run n).heap.poll target = some exit) :
    ∃ thread ∈ (run n).threads, ∃ left, .notifying exit left ∈ thread.control ∧
      .resume type callback ∈ left := by
  cases awaits with
  | suspended asked =>
    cases waits
    obtain ⟨k, before, i, state, registers, present⟩ := asked.registered
    refine (registers.told h tame observation present before ended).resolve_right ?_
    rintro ⟨state', after, ended⟩
    cases after.symm.trans (suspension?_of_places there)
    cases ended
  | polling | asking | asked | resumed => cases waits

end World

end Fibers
