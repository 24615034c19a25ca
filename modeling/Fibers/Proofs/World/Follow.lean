import Fibers.Proofs.Strand.Frames
import Fibers.Proofs.World.Ownership

/-!
# Following one fiber through a run

Whatever the threads of a machine do, one fiber is seen to take its own steps, with a request for
interruption now and then, until it ends or is lost.

## Main results

`Scene.Shows.moves` says so of one step, `World.Run.exists_follows` of a stretch of a run at whose
end the fiber is still there.
-/

namespace Fibers

variable {σ : Type}

/-! ### One step -/

/-- A fiber stands at one place and holds what a strand says; unless the strand is in the middle of
a request, so does the fiber. -/
structure Scene.Shows (scene : Scene σ) (id : FiberId) (strand : Strand σ) : Prop where
  knows : scene.heap.Knows id
  place : scene.places id = {strand.place}
  holding : ∃ fiber, scene.heap.fiber? id = some fiber ∧ fiber.holding = strand.holding
  calling : strand.calling = false → ∀ activation, scene.covered activation → ¬activation.Runs id

/-- What handing work around does to one fiber is to leave it alone, to lose it, or to resume it. -/
theorem moves_of_handed {before after : Scene σ} {id : FiberId} {strand : Strand σ}
    (shows' : before.Shows id strand) (handed : Handed (before.places id) (after.places id))
    {fiber fiber' : FiberState σ} (state : before.heap.fiber? id = some fiber)
    (state' : after.heap.fiber? id = some fiber') (kept : fiber.Kept fiber')
    (knows : after.heap.Knows id)
    (covered : ∀ activation, after.covered activation → activation.Runs id →
      before.covered activation) :
    (∃ strand', after.Shows id strand' ∧ strand.Moves strand') ∨ after.places id = 0 := by
  obtain ⟨_, place, ⟨other, present, holding⟩, calling⟩ := shows'
  cases state.symm.trans present
  have idle : strand.calling = false → ∀ activation, after.covered activation →
      ¬activation.Runs id :=
    fun idle activation mem runs => calling idle activation (covered activation mem runs) runs
  obtain ⟨start, holds, asking⟩ := strand
  cases holding
  obtain ⟨asked, whole, request⟩ := Machine.exists_request_of_kept kept start asking
  subst whole
  generalize was : before.places id = places at handed place
  generalize is : after.places id = places' at handed
  cases handed with
  | fewer le =>
    rw [place, Multiset.le_singleton] at le
    rcases le with lost | same
    · exact .inr lost
    · exact .inl ⟨⟨start, fiber'.holding, asking⟩,
        ⟨knows, is.trans same, ⟨fiber', state', rfl⟩, idle⟩, _, request, .inl rfl⟩
  | resumed callback stack value others =>
    obtain ⟨rfl, rfl⟩ := (Multiset.singleton_eq_cons_iff _).mp place.symm
    -- The fiber was suspended, so no loop of it is in the middle of anything.
    have none : ∀ activation, after.covered activation → ¬activation.Runs id := by
      intro activation mem runs
      have le := before.within activation (before.underWay_of_covered _ (covered _ mem runs)) id
      cases activation with
      | loop fiber focus frames =>
        have own : fiber = id := runs
        rw [was, place, Activation.places, if_pos own, Multiset.singleton_le] at le
        cases Multiset.mem_singleton.mp le
      | _ => cases runs
    exact .inl ⟨⟨.active (.node (.succeed value)) stack, fiber'.holding, false⟩,
      ⟨knows, is, ⟨fiber', state', rfl⟩, fun _ => none⟩, _, request,
      .inr ⟨some (.value value), .resumed⟩⟩

/-- A fiber takes a step of its strand, or it ends with its outcome, or it is lost. -/
theorem Scene.Shows.moves {before after : Scene σ} {id : FiberId} {strand : Strand σ}
    (shows' : before.Shows id strand) (owned : before.Owned) (moves : before.Moves after) :
    (∃ strand', after.Shows id strand' ∧ strand.Moves strand') ∨
      after.places id = 0 ∧
        ∀ exit, after.heap.poll id = some exit → strand.place.Reaches [] exit := by
  obtain ⟨knows, place, ⟨fiber, present, holding⟩, calling⟩ := shows'
  have somewhere : before.places id ≠ 0 := place ▸ Multiset.singleton_ne_zero _
  have running : fiber.exit? = none :=
    (Heap.poll_of_fiber? present).symm.trans (owned.there somewhere).2
  have silent : ∀ fiber', after.heap.fiber? id = some fiber' → fiber'.exit? = none →
      ∀ exit, after.heap.poll id = some exit → strand.place.Reaches [] exit := by
    intro fiber' present' running' exit ended
    cases ended.symm.trans ((Heap.poll_of_fiber? present').trans running')
  cases moves with
  | idle turn =>
    obtain ⟨fiber', present', kept⟩ := turn.fibers id fiber knows not_false present
    rcases moves_of_handed ⟨knows, place, ⟨fiber, present, holding⟩, calling⟩
      (turn.known id knows not_false) present present' kept (turn.knows id knows)
      (fun activation mem runs => turn.covered activation id mem runs not_false) with moved | lost
    · exact .inl moved
    · exact .inr ⟨lost, silent fiber' present' (kept.exit.trans running)⟩
  | @acted actor focus stack fiber₀ rest heap places underWay covered nowhere state turn acts =>
    have known : rest.heap.Knows id := heap ▸ knows
    -- The step of another fiber can still reach this one: it may resume it, refuse it or lose it.
    by_cases same : id = actor
    · subst same
      rw [places, nowhere, add_zero, Activation.places, if_pos rfl] at place
      cases (heap ▸ present).symm.trans state
      obtain ⟨start, holds, asking⟩ := strand
      cases Multiset.singleton_inj.mp place
      cases holding
      have exposed : before.covered (.loop id focus stack) → asking = true := by
        intro mem
        cases asking with
        | true => rfl
        | false => exact absurd rfl (calling rfl _ mem)
      cases acts asking exposed with
      | moved strand' fiber' place state running holding moves calling =>
        exact .inl ⟨strand', ⟨turn.knows id known, place, ⟨fiber', state, holding⟩, calling⟩, moves⟩
      | lost fiber' nowhere state running => exact .inr ⟨nowhere, silent fiber' state running⟩
      | completed fiber' exit nowhere state ended reaches =>
        refine .inr ⟨nowhere, fun exit' polled => ?_⟩
        cases polled.symm.trans ((Heap.poll_of_fiber? state).trans ended)
        exact reaches
    · have place' : rest.places id = {strand.place} := by
        rw [← place, places, Activation.places, if_neg (Ne.symm same), zero_add]
      obtain ⟨fiber', present', kept⟩ := turn.fibers id fiber known same (heap ▸ present)
      rcases moves_of_handed ⟨known, place', ⟨fiber, heap ▸ present, holding⟩,
          fun idle activation mem runs => calling idle activation
            (covered activation id mem runs) runs⟩
        (turn.known id known same) (heap ▸ present) present' kept (turn.knows id known)
        (fun activation mem runs => turn.covered activation id mem runs same) with moved | lost
      · exact .inl moved
      · exact .inr ⟨lost, silent fiber' present' (kept.exit.trans running)⟩

/-- A fiber that is nowhere does not come back, and nobody changes what is kept of it. -/
theorem Scene.Moves.of_nowhere {before after : Scene σ} {id : FiberId} (moves : before.Moves after)
    (knows : before.heap.Knows id) (gone : before.places id = 0) {fiber : FiberState σ}
    (present : before.heap.fiber? id = some fiber) :
    after.places id = 0 ∧ ∃ fiber', after.heap.fiber? id = some fiber' ∧ fiber.Kept fiber' := by
  cases moves with
  | idle turn =>
    exact ⟨(turn.known id knows not_false).eq_zero gone,
      turn.fibers id fiber knows not_false present⟩
  | @acted actor focus stack _ rest heap places _ _ _ _ turn _ =>
    rw [places] at gone
    obtain ⟨loop, others⟩ := add_eq_zero.mp gone
    have other : id ≠ actor := by
      rintro rfl
      rw [Activation.places, if_pos rfl] at loop
      exact Multiset.singleton_ne_zero _ loop
    rw [← heap] at knows present
    exact ⟨(turn.known id knows other).eq_zero others, turn.fibers id fiber knows other present⟩

theorem Scene.Moves.nowhere {before after : Scene σ} {id : FiberId} (moves : before.Moves after)
    (knows : before.heap.Knows id) (gone : before.places id = 0) : after.places id = 0 := by
  obtain ⟨fiber, present⟩ := knows.exists_fiber
  exact (moves.of_nowhere knows gone present).1

theorem Scene.Moves.knows {before after : Scene σ} {id : FiberId} (moves : before.Moves after)
    (knows : before.heap.Knows id) : after.heap.Knows id := by
  cases moves with
  | idle turn => exact turn.knows id knows
  | acted heap _ _ _ _ _ turn _ => exact turn.knows id (heap ▸ knows)

/-! ### Runs -/

namespace World

theorem Run.owned {run : Nat → World σ} (h : Run run) (n : Nat) : (run n).scene.Owned :=
  owned_of_reachable (h.reachable n)

theorem Run.moves {run : Nat → World σ} (h : Run run) (n : Nat) :
    (run n).scene.Moves (run (n + 1)).scene :=
  scene_moves_of_step (h.owned n) (h.step n)

/-- The first fiber of a trial, while its loop runs and nothing is in the middle of a request of
it. -/
theorem shows_trial {state : σ} {program code : Code σ Unit} {n : Nat} {focus : Focus σ}
    {stack : List (Frame σ)} {holding : Holding}
    (control : (trial state program n).main.control =
      [.loop ⟨1⟩ focus stack, .draining none, .program code])
    (calm : (trial state program n).main.panicking = none)
    (holds : ((trial state program n).heap.fiber? ⟨1⟩).map FiberState.holding = some holding)
    (place : (trial state program n).places ⟨1⟩ = {.active focus stack}) :
    (trial state program n).scene.Shows ⟨1⟩ ⟨.active focus stack, holding, false⟩ := by
  obtain ⟨fiber, present, rfl⟩ := Option.map_eq_some_iff.mp holds
  refine ⟨⟨0, (Array.getElem?_eq_some_iff.mp present).1, rfl⟩, place, ⟨fiber, present, rfl⟩, ?_⟩
  rintro - activation ⟨thread, mem, covered⟩ runs
  rw [threads, others_trial, List.mem_singleton] at mem
  rw [mem, Thread.covered_of_calm calm, control] at covered
  rcases List.mem_cons.mp covered with rfl | covered
  · exact runs
  · obtain rfl := List.mem_singleton.mp covered
    exact runs

/-- A fiber is followed through a stretch of a run. -/
structure Follows (run : Nat → World σ) (id : FiberId) (strands : Nat → Strand σ)
    (first last : Nat) : Prop where
  seen : ∀ n, first ≤ n → n ≤ last → (run n).scene.Shows id (strands n)
  stretch : Strand.Stretch strands first last

theorem Follows.mono {run : Nat → World σ} {id : FiberId} {strands : Nat → Strand σ}
    {first last first' last' : Nat} (h : Follows run id strands first last) (low : first ≤ first')
    (high : last' ≤ last) : Follows run id strands first' last' :=
  ⟨fun n low' high' => h.seen n (low.trans low') (high'.trans high), h.stretch.mono low high⟩

theorem Follows.place_eq {run : Nat → World σ} {id : FiberId} {strands : Nat → Strand σ}
    {first last n : Nat} {place : Place σ} (h : Follows run id strands first last) (low : first ≤ n)
    (high : n ≤ last) (there : (run n).places id = {place}) : (strands n).place = place :=
  Multiset.singleton_inj.mp ((h.seen n low high).place.symm.trans there)

theorem Follows.holding_eq {run : Nat → World σ} {id : FiberId} {strands : Nat → Strand σ}
    {first last n : Nat} {fiber : FiberState σ} (h : Follows run id strands first last)
    (low : first ≤ n) (high : n ≤ last) (present : (run n).heap.fiber? id = some fiber) :
    (strands n).holding = fiber.holding := by
  obtain ⟨other, present', same⟩ := (h.seen n low high).holding
  cases present.symm.trans present'
  exact same.symm

/-- Nobody asks for interruption of a fiber as it is followed, if nobody does in the run. -/
theorem Follows.unrequested {run : Nat → World σ} {id : FiberId} {strands : Nat → Strand σ}
    {first last : Nat} (h : Follows run id strands first last)
    (unrequested : ∀ n, first ≤ n → n ≤ last → ∀ fiber, (run n).heap.fiber? id = some fiber →
      fiber.flags.requested = false) (n : Nat) (low : first ≤ n) (high : n ≤ last) :
    (strands n).holding.flags.requested = false := by
  obtain ⟨fiber, present, same⟩ := (h.seen n low high).holding
  rw [← same]
  exact unrequested n low high fiber present

theorem Follows.leaves {run : Nat → World σ} {id : FiberId} {strands : Nat → Strand σ}
    {first last : Nat} {value : Erased} {stack : List (Frame σ)}
    (h : Follows run id strands first last) (le : first ≤ last)
    (there : (run last).places id = {.active (.value value) stack})
    (inside : ∀ n, first ≤ n → n < last →
      ∃ place, (run n).places id = {place} ∧ ∀ exit, ¬place.Reaches stack exit) :
    Strand.Leaves strands first last stack (.success value) := by
  refine ⟨le, ?_, fun n low high => ?_⟩
  · rw [h.place_eq le le_rfl there]
    exact .value value
  · obtain ⟨place, there, unreached⟩ := inside n low high
    rw [h.place_eq low high.le there]
    exact unreached

/-- A fiber that is still there was there all the time, and can be followed. -/
theorem Run.exists_follows {run : Nat → World σ} (h : Run run) {id : FiberId} {strand : Strand σ}
    {first last : Nat} (start : (run first).scene.Shows id strand) (le : first ≤ last)
    (there : (run last).places id ≠ 0) :
    ∃ strands, strands first = strand ∧ Follows run id strands first last := by
  have knows : ∀ n, first ≤ n → (run n).heap.Knows id := by
    intro n le
    induction n, le using Nat.le_induction with
    | base => exact start.knows
    | succ n _ ih => exact (h.moves n).knows ih
  induction last, le using Nat.le_induction with
  | base =>
    refine ⟨fun _ => strand, rfl, ⟨fun n le le' => ?_, fun n le lt => by omega⟩⟩
    obtain rfl : n = first := by omega
    exact start
  | succ last le ih =>
    have before : (run last).places id ≠ 0 := fun gone =>
      there ((h.moves last).nowhere (knows last le) gone)
    obtain ⟨strands, begins, seen, stretch⟩ := ih before
    rcases (seen last le le_rfl).moves (h.owned last) (h.moves last) with moved | ⟨gone, _⟩
    · obtain ⟨strand', shows', moves⟩ := moved
      refine ⟨fun n => if n ≤ last then strands n else strand', ?_, ⟨fun n le le' => ?_,
        fun n le lt => ?_⟩⟩
      · simp only [if_pos le, begins]
      · by_cases old : n ≤ last
        · simpa only [if_pos old] using seen n le old
        · obtain rfl : n = last + 1 := by omega
          simpa only [if_neg old] using shows'
      · by_cases old : n + 1 ≤ last
        · simpa only [if_pos old, if_pos (Nat.le_of_succ_le old)] using stretch n le old
        · obtain rfl : n = last := by omega
          simpa only [if_neg old, if_pos le_rfl] using moves
    · exact absurd gone there

end World

end Fibers
