import Fibers.Proofs.Strand.Interruption
import Fibers.Proofs.World.Innermost
import Fibers.Proofs.World.Replay

/-!
# The life of an interruption

Anybody may ask for the interruption of a fiber, as often as they like. What comes of it is the same
for every fiber of every run.

## Main results

`World.interruption_protocol`: an interruption takes effect once at most, where the fiber polls for
the first time after a request while it may be interrupted; up to there the run is the one in which
nobody asks; from there on the innermost handler is all that runs.

## Proof strategy

Before the poll a fiber is a strand for which an interruption is pending. After the poll its loop
stays innermost on its thread (`World.Tops`), so nothing can come between.
-/

namespace Fibers

variable {σ : Type}

/-! ### Flags of a fiber in view -/

namespace Scene.Shows

variable {scene : Scene σ} {id : FiberId} {strand : Strand σ}

theorem isFinalizing (h : scene.Shows id strand) :
    scene.heap.isFinalizing id = strand.holding.flags.finalizing := by
  obtain ⟨fiber, present, same⟩ := h.holding
  rw [Heap.isFinalizing, present, ← same]
  rfl

theorem isRequested (h : scene.Shows id strand) :
    scene.heap.isRequested id = strand.holding.flags.requested := by
  obtain ⟨fiber, present, same⟩ := h.holding
  rw [Heap.isRequested, present, ← same]
  rfl

theorem shouldInterrupt (h : scene.Shows id strand) :
    scene.heap.shouldInterrupt id = strand.holding.flags.shouldInterrupt := by
  obtain ⟨fiber, present, same⟩ := h.holding
  rw [Heap.shouldInterrupt, present, ← same]
  rfl

end Scene.Shows

namespace World

variable {run : Nat → World σ} {id : FiberId} {n : Nat}

/-- The interruption of a fiber takes effect in one step of a run. -/
def TakesEffect (run : Nat → World σ) (id : FiberId) (n : Nat) : Prop :=
  (run n).heap.isFinalizing id = false ∧ (run (n + 1)).heap.isFinalizing id = true

/-- In one step of a run, a thread asks for the interruption of a fiber. -/
def AskedAt (run : Nat → World σ) (id : FiberId) (n : Nat) : Prop :=
  ∃ thread ∈ (run n).threads, thread.Asks id ∧
    (run (n + 1)).heap = (Machine.step (run n).heap thread).1

theorem takesEffect_iff {choices : Nat → Choice σ}
    (made : ∀ n, run (n + 1) = (run n).choose (choices n)) :
    TakesEffect run id n ↔ (run n).Interrupts (choices n) id := by
  constructor
  · rintro ⟨before, after⟩
    by_contra other
    rw [made, isFinalizing_choose before other] at after
    cases after
  · intro interrupts
    rw [TakesEffect, made]
    exact interrupts.isFinalizing

/-! ### At the poll -/

/-- An interruption takes effect where the loop of the fiber polls. -/
theorem Run.tops_of_takesEffect (h : Run run) {index : Nat}
    (effect : TakesEffect run (.ofIndex index) n) :
    ∃ current stack, (run n).Tops (.ofIndex index) (.node current) stack ∧
      (run n).heap.shouldInterrupt (.ofIndex index) = true ∧
      (run (n + 1)).Tops (.ofIndex index) (.node (.failNow .interrupt))
        (.apply (.constant current) :: stack) := by
  obtain ⟨choices, made⟩ := exists_choices h
  obtain ⟨place, thread, chosen, present, fiber, current, stack, next, own, due⟩ :=
    (takesEffect_iff made).mp effect
  have tops : (run n).Tops fiber (.node current) stack :=
    ⟨thread, List.mem_of_getElem? present, next⟩
  obtain ⟨holding, shows'⟩ := tops.shows (h.owned n)
  obtain ⟨number, small, rfl⟩ := shows'.knows
  cases own
  refine ⟨current, stack, tops, due, ?_⟩
  -- The step that polls puts the interruption in the place of the effect.
  obtain ⟨calm, rest, control⟩ := Thread.next?_eq_some_iff.mp next
  have threads := (threads_onThread present Machine.step).2
  have calm' : { thread with control := rest }.panicking = none := calm
  refine tops_refocus calm' ?_
  rw [made, chosen, choose, threads, Machine.step_of_due calm control due]
  exact List.mem_set (List.getElem?_eq_some_iff.mp present).1 _

/-- Once an interruption has taken effect, it has for as long as the fiber is there. -/
theorem Run.isFinalizing_of_takesEffect (h : Run run) {index : Nat}
    (effect : TakesEffect run (.ofIndex index) n) {m : Nat} (later : n < m)
    (there : (run m).places (.ofIndex index) ≠ 0) :
    (run m).heap.isFinalizing (.ofIndex index) = true := by
  obtain ⟨current, stack, _, _, tops⟩ := h.tops_of_takesEffect effect
  obtain ⟨holding, shows'⟩ := tops.shows (h.owned (n + 1))
  obtain ⟨strands, begins, follows⟩ := h.exists_follows shows' later there
  have late : (strands (n + 1)).holding.flags.finalizing = true := by
    rw [← (follows.seen (n + 1) le_rfl later).isFinalizing]
    exact effect.2
  exact (follows.seen m later le_rfl).isFinalizing.trans (follows.stretch.finalizing later late)

theorem Run.takesEffect_once (h : Run run) {index m : Nat}
    (effect : TakesEffect run (.ofIndex index) n) (again : TakesEffect run (.ofIndex index) m) :
    ¬n < m := by
  intro later
  obtain ⟨current, stack, tops, _⟩ := h.tops_of_takesEffect again
  have there : (run m).places (.ofIndex index) ≠ 0 := by
    rw [tops.places (h.owned m)]
    exact Multiset.singleton_ne_zero _
  cases again.1.symm.trans (h.isFinalizing_of_takesEffect effect later there)

/-- Who has been asked was asked at some time. -/
theorem Run.asked_of_isRequested (h : Run run) (asked : (run n).heap.isRequested id = true) :
    (run 0).heap.isRequested id = true ∨ ∃ m < n, AskedAt run id m := by
  obtain ⟨choices, made⟩ := exists_choices h
  induction n with
  | zero => exact .inl asked
  | succ n ih =>
    cases before : (run n).heap.isRequested id with
    | true =>
      refine (ih before).imp_right ?_
      rintro ⟨m, lt, asks⟩
      exact ⟨m, Nat.lt_succ_of_lt lt, asks⟩
    | false =>
      by_cases asks : (run n).Asks (choices n) id
      · obtain ⟨place, thread, chosen, present, asks⟩ := asks
        refine .inr ⟨n, Nat.lt_succ_self n, thread, List.mem_of_getElem? present, asks, ?_⟩
        rw [made, chosen, choose, (threads_onThread present _).1]
      · rw [made, isRequested_choose before asks] at asked
        cases asked

/-! ### After the poll -/

/-- From some moment on, a cause is on its way, until the innermost handler has it, or it has ended
its fiber, or an interruption takes its place. -/
def Delivers (run : Nat → World σ) (id : FiberId) (n : Nat) (cause : Cause)
    (stack : List (Frame σ)) : Prop :=
  ∀ last, n ≤ last → ∃ moment, n ≤ moment ∧ moment ≤ last ∧
    (∀ m, n ≤ m → m ≤ moment → (run m).Raises id cause stack) ∧
    (moment = last ∨ (run (moment + 1)).Receives id cause stack ∨ TakesEffect run id moment)

theorem Run.delivers (h : Run run) {cause : Cause} {stack : List (Frame σ)}
    (raises : (run n).Raises id cause stack) : Delivers run id n cause stack := by
  intro last later
  induction last, later using Nat.le_induction with
  | base =>
    refine ⟨n, le_rfl, le_rfl, fun m low high => ?_, .inl rfl⟩
    obtain rfl : m = n := le_antisymm high low
    exact raises
  | succ last later ih =>
    obtain ⟨moment, low, high, raised, rfl | gone⟩ := ih
    · -- The cause was on its way up to the last moment: one more step decides.
      rcases (raised moment low le_rfl).step (h.owned moment) (h.step moment) with
        still | received | ⟨due, thread, heap⟩
      · refine ⟨moment + 1, Nat.le_succ_of_le low, le_rfl, fun m low' high' => ?_, .inl rfl⟩
        rcases Nat.lt_or_eq_of_le high' with old | rfl
        · exact raised m low' (Nat.le_of_lt_succ old)
        · exact still
      · exact ⟨moment, low, Nat.le_succ moment, raised, .inr (.inl received)⟩
      · obtain ⟨fresh, late⟩ := isFinalizing_beginInterruption rfl due thread stack (.failNow cause)
        exact ⟨moment, low, Nat.le_succ moment, raised, .inr (.inr ⟨fresh, heap ▸ late⟩)⟩
    · exact ⟨moment, low, Nat.le_succ_of_le high, raised, .inr gone⟩

/-- The loop of a fiber does nothing but take an interruption to its frames. -/
inductive Carries (world : World σ) (id : FiberId) (current : Node σ) (stack : List (Frame σ)) :
    Prop where
  | polling
      (tops : world.Tops id (.node (.failNow .interrupt)) (.apply (.constant current) :: stack))
  | raising
      (tops : world.Tops id (.raising (.done .interrupt)) (.apply (.constant current) :: stack))
  | raised (tops : world.Tops id (.cause .interrupt) (.apply (.constant current) :: stack))

theorem carries_iff {world : World σ} {current : Node σ} {stack : List (Frame σ)} :
    world.Carries id current stack ↔
      world.Raises id .interrupt (.apply (.constant current) :: stack) := by
  constructor
  · rintro (tops | tops | tops)
    · exact .polling tops
    · exact .computing tops
    · exact .raised tops
  · rintro (tops | tops | tops)
    · exact .polling tops
    · exact .raising tops
    · exact .raised tops

/-- From a poll on, an interruption that took the place of an effect is carried up to some moment,
after which the innermost handler has it, or it has ended the fiber. -/
def Unwinds (run : Nat → World σ) (id : FiberId) (n : Nat) (current : Node σ)
    (stack : List (Frame σ)) : Prop :=
  ∀ last, n < last → ∃ moment, n < moment ∧ moment ≤ last ∧
    (∀ m, n < m → m ≤ moment → (run m).Carries id current stack) ∧
    (moment = last ∨
      (∃ handler rest, unwind stack = some (handler, rest) ∧
        (run (moment + 1)).Tops id (.building (handler.recover .interrupt)) rest) ∨
      unwind stack = none ∧ (run (moment + 1)).heap.poll id = some (.failure .interrupt))

theorem Run.unwinds_of_takesEffect (h : Run run) {index : Nat}
    (effect : TakesEffect run (.ofIndex index) n) :
    ∃ current stack, (run n).places (.ofIndex index) = {.active (.node current) stack} ∧
      Unwinds run (.ofIndex index) n current stack := by
  obtain ⟨current, stack, before, _, after⟩ := h.tops_of_takesEffect effect
  refine ⟨current, stack, before.places (h.owned n), fun last later => ?_⟩
  obtain ⟨moment, low, high, raised, outcome⟩ :=
    h.delivers (carries_iff.mp (.polling after)) last later
  refine ⟨moment, low, high, fun m low high => carries_iff.mpr (raised m low high), ?_⟩
  rcases outcome with rfl | received | again
  · exact .inl rfl
  · -- No handler is in the frame that took the place of the effect.
    exact .inr received
  · -- A second interruption cannot come in between.
    exact absurd low (h.takesEffect_once effect again)

/-! ### The protocol -/

theorem Follows.calm {strands : Nat → Strand σ} {first last : Nat}
    (follows : Follows run id strands first last)
    (none : ∀ n, first ≤ n → n < last → ¬TakesEffect run id n) :
    Strand.Calm strands first last := by
  intro n low high interrupted
  have before := (follows.seen n low high.le).isFinalizing
  have after := (follows.seen (n + 1) (Nat.le_succ_of_le low) high).isFinalizing
  exact none n low high ⟨before.trans interrupted.1, after.trans interrupted.2⟩

/-- Without a request an interruption is not due. -/
theorem not_interrupts_ask (world : World σ) (choice : Choice σ) (id : FiberId) :
    ¬(world.ask id false).Interrupts choice id := by
  rintro ⟨index, thread, _, _, fiber, current, stack, _, own, due⟩
  rw [Heap.shouldInterrupt, Heap.fiber?, ask, Heap.updateFlags, Heap.fibers_updateFiber,
    if_pos own.symm] at due
  cases state : world.heap.fibers[fiber.index]? with
  | none => simp [state] at due
  | some fiber => simp [state, InterruptFlags.shouldInterrupt] at due

/-- Until an interruption takes effect, a run is the one in which nobody asks for it. -/
theorem Run.unaware (h : Run run) :
    ∃ choices : Nat → Choice σ, (∀ n, run (n + 1) = (run n).choose (choices n)) ∧
      ∀ n, (∀ m < n, ¬TakesEffect run id m) →
        Alike id (run n) (replay id choices (fun _ => false) (run 0) n) := by
  obtain ⟨choices, made⟩ := exists_choices h
  refine ⟨choices, made, fun n none => alike_replay made fun m lt => ⟨?_, ?_⟩⟩
  · exact fun interrupts => none m lt ((takesEffect_iff made).mpr interrupts)
  · cases m with
    | zero => exact not_interrupts_ask _ _ _
    | succ m => exact not_interrupts_ask _ _ _

/-- What becomes of the requests for the interruption of a fiber in a run. -/
structure InterruptionProtocol (run : Nat → World σ) (id : FiberId) : Prop where
  /-- An interruption takes effect once at most. -/
  once : ∀ n m, TakesEffect run id n → TakesEffect run id m → n = m
  /-- It takes effect where the fiber polls, after a request, while the fiber may be interrupted. -/
  due : ∀ n, TakesEffect run id n →
    (∃ current stack, (run n).places id = {.active (.node current) stack}) ∧
      (∃ fiber, (run n).heap.fiber? id = some fiber ∧ fiber.flags.requested = true ∧
        fiber.flags.status = .interruptible) ∧
      ((run 0).heap.isRequested id = true ∨ ∃ m < n, AskedAt run id m)
  /-- If it is due, it takes effect at the first poll: until then no effect is interpreted, one
  frame is run at most, and a value for a suspended fiber gets no further than the poll. -/
  prompt : ∀ strands first last, Follows run id strands first last → first ≤ last →
    (strands first).Pending → (∀ n, first ≤ n → n < last → ¬TakesEffect run id n) →
    (strands last).holding = (strands first).holding ∧
      (∀ n, first ≤ n → n < last → (strands n).place.Polls → strands (n + 1) = strands n) ∧
      (∀ n m, first ≤ n → n < m → m < last → Strand.Applies (strands n) (strands (n + 1)) →
        ¬Strand.Applies (strands m) (strands (m + 1))) ∧
      ∀ n callback stack, first ≤ n → n < last → (strands n).place = .suspended callback stack →
        (strands (n + 1)).place = (strands n).place ∨
          ∃ value, (strands (n + 1)).place = .active (.node (.succeed value)) stack
  /-- Until it takes effect, everything is as in the same run without any request. -/
  unaware : ∃ choices : Nat → Choice σ, (∀ n, run (n + 1) = (run n).choose (choices n)) ∧
    ∀ n, (∀ m < n, ¬TakesEffect run id m) →
      Alike id (run n) (replay id choices (fun _ => false) (run 0) n)
  /-- When it takes effect, it takes the place of the next effect, and the fiber does nothing but
  hand it to the innermost handler, or end with it. -/
  unwinds : ∀ n, TakesEffect run id n →
    ∃ current stack, (run n).places id = {.active (.node current) stack} ∧
      Unwinds run id n current stack

/-- Every fiber of every run keeps the protocol, whoever asks for its interruption, and whenever. -/
theorem interruption_protocol (h : Run run) (index : Nat) :
    InterruptionProtocol run (.ofIndex index) where
  once n m effect again := by
    rcases Nat.lt_trichotomy n m with earlier | same | later
    · exact absurd earlier (h.takesEffect_once effect again)
    · exact same
    · exact absurd later (h.takesEffect_once again effect)
  due n effect := by
    obtain ⟨current, stack, tops, due, _⟩ := h.tops_of_takesEffect effect
    obtain ⟨holding, shows'⟩ := tops.shows (h.owned n)
    obtain ⟨fiber, present, same⟩ := shows'.holding
    have due : fiber.flags.shouldInterrupt = true := by
      rw [← due, Heap.shouldInterrupt, show (run n).heap.fiber? _ = _ from present]
    obtain ⟨asked, status, _⟩ := InterruptFlags.shouldInterrupt_iff.mp due
    refine ⟨⟨current, stack, tops.places (h.owned n)⟩, ⟨fiber, present, asked, status⟩,
      h.asked_of_isRequested ?_⟩
    rw [Heap.isRequested, show (run n).heap.fiber? _ = _ from present]
    exact asked
  prompt strands first last follows le pending none := by
    have calm := follows.calm none
    have stretch := follows.stretch
    exact ⟨(stretch.pending le pending calm).1,
      fun n low high polls => stretch.stays_at_poll pending calm low high polls,
      fun n m low lt high applies => stretch.applies_once pending calm low lt high applies,
      fun n callback stack low high place => (stretch n low high).of_suspended place⟩
  unaware := h.unaware
  unwinds n effect := h.unwinds_of_takesEffect effect

/-- An effect that asks for its own interruption, and again after it has recovered. -/
def stubborn : Effect Unit .unit :=
  (interruptSelf.flatMap fun _ => .done interruptSelf).foldCauseEffect
    (fun _ => .done interruptSelf) fun _ => .done Effect.unit

/-- The first request is heard, the second one is not. -/
theorem interruption_protocol_stubborn :
    let run := trial () (launched stubborn)
    Run run ∧ InterruptionProtocol run ⟨1⟩ ∧ TakesEffect run ⟨1⟩ 8 ∧
      (run 17).heap.poll ⟨1⟩ = some (.success .unit) :=
  ⟨run_trial _ _, interruption_protocol (run_trial _ _) 0, ⟨rfl, rfl⟩, rfl⟩

end World

end Fibers
