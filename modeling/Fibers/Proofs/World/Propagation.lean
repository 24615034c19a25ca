import Fibers.Proofs.Strand.Propagation
import Fibers.Proofs.World.Finalizer
import Fibers.Proofs.World.Interruption
import Mathlib.Tactic.IntervalCases

/-!
# How causes propagate

A cause is raised in a fiber above frames of any kind, on whatever threads and beside whatever other
fibers, while no interruption can take effect in the fiber.

## Main results

`World.cause_propagates`: the cause takes its course through the frames, and a fiber that it ends
has it for its exit. The course of a defect or of an interruption leads through all finalizers on
the frames, that of an expected error to the first handler.
-/

namespace Fibers

variable {σ : Type}

namespace World

open Strand

variable {run : Nat → World σ} {id : FiberId} {first last : Nat}

/-! ### Settled fibers -/

/-- A fiber that is somewhere can be looked at. -/
theorem exists_shows {world : World σ} (owned : world.scene.Owned) (there : world.places id ≠ 0) :
    ∃ place holding, world.scene.Shows id ⟨place, holding, true⟩ := by
  obtain ⟨knows, _⟩ := owned.there there
  obtain ⟨fiber, present⟩ := knows.exists_fiber
  have one : (world.places id).card = 1 :=
    le_antisymm (owned.single id) (Multiset.card_pos.mpr there)
  obtain ⟨place, alone⟩ := Multiset.card_eq_one.mp one
  exact ⟨place, fiber.holding, knows, alone, ⟨fiber, present, rfl⟩, nofun⟩

theorem fiber?_of_not_knows {heap : Heap σ} {index : Nat} (new : ¬heap.Knows (.ofIndex index)) :
    heap.fiber? (.ofIndex index) = none :=
  Array.getElem?_eq_none (Nat.le_of_not_lt fun small => new ⟨index, small, rfl⟩)

/-- An interruption takes effect only in a fiber that has been asked for it. -/
theorem isRequested_of_isFinalizing {world : World σ} (reached : world.Reachable) {index : Nat}
    (there : world.places (.ofIndex index) ≠ 0)
    (late : world.heap.isFinalizing (.ofIndex index) = true) :
    world.heap.isRequested (.ofIndex index) = true := by
  obtain ⟨origin, fresh, steps⟩ := reached
  induction steps with
  | refl =>
    rw [Heap.isFinalizing, Heap.fiber?, fresh.fibers] at late
    cases late
  | @tail world world' steps step ih =>
    have owned := owned_of_steps (owned_of_fresh fresh) steps
    have moves := scene_moves_of_step owned step
    by_cases knows : world.heap.Knows (.ofIndex index)
    · have there' : world.places (.ofIndex index) ≠ 0 := fun gone =>
        there (moves.nowhere knows gone)
      obtain ⟨place, holding, shows'⟩ := exists_shows owned there'
      obtain ⟨strand, shows'', moved⟩ :=
        (shows'.moves owned moves).resolve_right fun gone => there gone.1
      refine shows''.isRequested.trans
        (moved.requested_of_finalizing (fun before => ?_) (shows''.isFinalizing.symm.trans late))
      exact shows'.isRequested.symm.trans (ih there' (shows'.isFinalizing.trans before))
    · -- A new fiber has not been interrupted.
      obtain ⟨choice, rfl⟩ := exists_choice step
      have new := fiber?_of_not_knows knows
      have before : world.heap.isFinalizing (.ofIndex index) = false := by
        rw [Heap.isFinalizing, new]
        rfl
      refine absurd late (ne_true_of_eq_false (isFinalizing_choose before ?_))
      rintro ⟨_, _, _, _, fiber, _, _, _, own, due⟩
      rw [Heap.shouldInterrupt, world.heap.fiber?_congr own, new] at due
      cases due

/-! ### Causes -/

/-- No interruption can take effect in a fiber: nobody asks for one in a stretch of a run, or one
has taken effect before. -/
def Settled (run : Nat → World σ) (id : FiberId) (first last : Nat) : Prop :=
  (∀ n, first ≤ n → n ≤ last → (run n).heap.isRequested id = false) ∨
    (run first).heap.isFinalizing id = true

theorem Follows.fed {strands : Nat → Strand σ} (follows : Follows run id strands first last)
    (h : Run run) (le : first ≤ last) (settled : Settled run id first last) :
    (∃ feed, Fed strands feed first last) ∧ ∀ n, first ≤ n → n ≤ last →
      (strands n).holding.flags.shouldInterrupt = false := by
  rcases settled with unrequested | late
  · have never : ∀ n, first ≤ n → n ≤ last → (strands n).holding.flags.requested = false :=
      fun n low high => (follows.seen n low high).isRequested.symm.trans (unrequested n low high)
    refine ⟨follows.stretch.exists_fed never, fun n low high => ?_⟩
    rw [InterruptFlags.shouldInterrupt, never n low high]
    rfl
  · have begins := follows.seen first le_rfl le
    obtain ⟨index, _, rfl⟩ := begins.knows
    have there : (run first).places (.ofIndex index) ≠ 0 := by
      rw [show (run first).places _ = _ from begins.place]
      exact Multiset.singleton_ne_zero _
    have asked := begins.isRequested.symm.trans
      (isRequested_of_isFinalizing (h.reachable first) there late)
    have stretch (n : Nat) (high : n ≤ last) := follows.stretch.mono le_rfl high
    refine ⟨follows.stretch.exists_fed_of_settled fun n low high =>
      .inl ((stretch n high.le).requested low asked), fun n low high => ?_⟩
    exact shouldInterrupt_of_finalizing
      ((stretch n high).finalizing low (begins.isFinalizing.symm.trans late))

/-- A cause that has passed all frames stays where it is until it ends its fiber. -/
theorem Run.stays_or_ends (h : Run run) {cause : Cause} {stack : List (Frame σ)}
    {holding : Holding} {n : Nat}
    (shows' : (run n).scene.Shows id ⟨.active (.cause cause) stack, holding, false⟩)
    (undue : holding.flags.shouldInterrupt = false) (passed : unwind stack = none) :
    (run (n + 1)).places id ≠ 0 ∨ (run (n + 1)).heap.poll id = some (.failure cause) := by
  have tops := tops_of_shows (by rintro current ⟨⟩) shows'
  rcases (Raises.raised tops).step (h.owned n) (h.step n) with raises | received | ⟨due, _⟩
  · refine .inl ?_
    cases raises with
    | polling tops | computing tops | raised tops =>
      rw [tops.places (h.owned (n + 1))]
      exact Multiset.singleton_ne_zero _
  · rcases received with ⟨_, _, found, _⟩ | ⟨_, ended⟩
    · cases passed.symm.trans found
    · exact .inr ended
  · cases (shows'.shouldInterrupt.trans undue).symm.trans due

/-- A cause that is raised in a fiber takes its course through the frames: it runs the finalizers
that it meets, each once, in its scope, from the innermost one on, and nothing else, until a handler
of expected errors has it, if it is one. If the finalizers succeed and there is no such handler, the
fiber ends with this very cause, after a number of steps that does not depend on the schedule. -/
theorem cause_propagates (h : Run run) {cause : Cause} {stack : List (Frame σ)} {holding : Holding}
    (raised : (run first).scene.Shows id ⟨.active (.cause cause) stack, holding, false⟩)
    (made : ∀ frame ∈ stack, frame.Made) (le : first ≤ last) (there : (run last).places id ≠ 0)
    (settled : Settled run id first last) :
    ∃ strands stage left, strands first = ⟨.active (.cause cause) stack, holding, false⟩ ∧
      Follows run id strands first last ∧
      Descends cause strands last (8 * stack.length) first (course cause stack holding.scope) stage
        left ∧
      (cause.isFail = false → stage ≠ .landed ∧
        (course cause stack holding.scope).visits.map Visit.effect =
          stack.filterMap Frame.finalizer?) ∧
      (stage = .falling → (strands last).place.Reaches [] (.failure cause) →
        (run (last + 1)).places id ≠ 0 ∨
          (run (last + 1)).heap.poll id = some (.failure cause)) ∧
      ∀ exit, (run (last + 1)).heap.poll id = some exit →
        stage ≠ .visiting ∧ (stage = .falling → exit = .failure cause ∧ left = {}) := by
  obtain ⟨strands, begins, follows⟩ := h.exists_follows raised le there
  obtain ⟨⟨feed, fed⟩, undue⟩ := follows.fed h le settled
  have carries : Strand.Carries cause stack (8 * stack.length) (strands first) :=
    begins ▸ .raised _ _
  obtain ⟨stage, left, descends⟩ :=
    fed.descends (fun n low high => undue n low high.le) le made carries le_rfl
  rw [begins] at descends
  refine ⟨strands, stage, left, begins, follows, descends, fun other => ⟨?_, ?_⟩, ?_, ?_⟩
  · exact fun landed => descends.landing landed (landing_course other _)
  · exact visits_course other _
  · intro falling arrived
    obtain ⟨stack', ahead, carries, -⟩ := descends.carries falling
    have shows' := follows.seen last le le_rfl
    have undue' := undue last le le_rfl
    -- Only a bare cause can have come to the bottom.
    generalize strands last = strand at arrived carries shows' undue'
    cases carries with
    | raised _ holding' =>
      refine h.stays_or_ends shows' undue' (unwind_eq_none_iff.mpr ?_)
      generalize same : Place.active (.cause cause) stack' = place at arrived
      cases arrived with
      | cause _ dropped =>
        cases same
        exact ⟨dropped, List.append_nil _⟩
    | raising | polling | built | kept | restoring | due | ending => cases arrived
  · intro exit polled
    -- The fiber has an exit because its last step has left the bottom with it.
    have ended : (strands last).place.Reaches [] exit := by
      rcases (follows.seen last le le_rfl).moves (h.owned last) (h.moves last) with
        ⟨strand, shows', _⟩ | ⟨_, reaches⟩
      · have somewhere : (run (last + 1)).scene.places id ≠ 0 := by
          rw [shows'.place]
          exact Multiset.singleton_ne_zero _
        cases polled.symm.trans ((h.owned (last + 1)).there somewhere).2
      · exact reaches exit polled
    refine ⟨fun visiting => descends.not_ended visiting exit ended, fun falling => ?_⟩
    obtain ⟨stack', ahead, carries, rfl⟩ := descends.carries falling
    exact carries.ends ended _

/-- A defect under a handler of expected errors, under a finalizer that counts its runs, under an
environment. -/
def broken : Effect Nat .unit :=
  (((Effect.die "broken").catchAll fun _ => .done Effect.unit).ensuring counted).provide
    (R := .int) 7

/-- The defect passes the handler, runs the finalizer once and ends the fiber. -/
theorem cause_propagates_broken :
    ∃ handler strands stage left,
      Follows (trial 0 (launched broken)) ⟨1⟩ strands 6 28 ∧
      Descends (.die "broken") strands 28 24 6
        ⟨[⟨counted.node, [.fold (.finalizer .leaveScope)], ⟨[⟨.int, 7⟩], .interruptible⟩⟩], none⟩
        stage left ∧
      (trial 0 (launched broken) 6).places ⟨1⟩ = {.active (.cause (.die "broken"))
        [.fold handler, .fold (.finalizer counted.node), .fold (.finalizer .leaveScope)]} ∧
      stage ≠ .visiting ∧ stage ≠ .landed ∧ (trial 0 (launched broken) 28).heap.world = 1 ∧
      (trial 0 (launched broken) 29).heap.poll ⟨1⟩ = some (.failure (.die "broken")) := by
  obtain ⟨handler, node, selective, -⟩ :=
    Effect.made_catchAll (Effect.die "broken") fun _ => .done (Effect.unit : Effect Nat .unit)
  have raised : (trial 0 (launched broken) 6).scene.Shows ⟨1⟩
      ⟨.active (.cause (.die "broken"))
        [.fold handler, .fold (.finalizer counted.node), .fold (.finalizer .leaveScope)],
        ⟨{}, [⟨.int, 7⟩], ⟨0⟩⟩, false⟩ := by
    cases node
    exact shows_trial rfl rfl rfl rfl
  have made : ∀ frame ∈ ([.fold handler, .fold (.finalizer counted.node),
      .fold (.finalizer .leaveScope)] : List (Frame Nat)), frame.Made := by
    simp only [List.forall_mem_cons]
    exact ⟨selective, .finalizer (.sync _), .restorer .leaveScope, by simp⟩
  have there : (trial 0 (launched broken) 28).places ⟨1⟩ =
      {.active (.cause (.die "broken")) []} := rfl
  have settled : Settled (trial 0 (launched broken)) ⟨1⟩ 6 28 := by
    refine .inl fun n low high => ?_
    interval_cases n <;> rfl
  obtain ⟨strands, stage, left, -, follows, descends, passes, -, ends⟩ :=
    cause_propagates (run_trial 0 (launched broken)) raised made (by decide)
      (there ▸ Multiset.singleton_ne_zero _) settled
  -- The handler is one of expected errors, so the course leads past it.
  cases node
  exact ⟨_, strands, stage, left, follows, descends, rfl, (ends _ rfl).1, (passes rfl).1, rfl, rfl⟩

end World

end Fibers
