import Fibers.Proofs.Strand.Frames

/-!
# From a request to its effect

A fiber that has been asked for interruption goes on to the next poll, and no further.

## Main results

`Strand.Stretch.pending`: until the poll a fiber holds what it held and comes closer to the poll.
`Strand.Stretch.stays_at_poll` and `Strand.Stretch.applies_once`: it interprets no effect, and runs
at most one frame.

## Proof strategy

`Place.ahead` measures how much of a cycle of the loop is left before the poll. It never grows while
an interruption is due, and running a frame lowers it.
-/

namespace Fibers

variable {σ : Type}

/-! ### Before the poll -/

/-- What is left before a fiber polls: user code, then an outcome for its frames, then the code of
one frame. -/
def Place.ahead : Place σ → Nat
  | .active (.node _) _ => 0
  | .active (.building _) _ => 1
  | .active (.value _) _ | .active (.cause _) _ => 2
  | .active (.thunk _) _ | .active (.raising _) _ | .active (.registering ..) _ => 3
  | .suspended .. => 1

/-- Whether a fiber is about to poll. -/
def Place.Polls (place : Place σ) : Prop := ∃ current stack, place = .active (.node current) stack

theorem Focus.ahead_answered {focus next : Focus σ} {answer : Answer σ}
    (answered : focus.Answered answer next) (stack : List (Frame σ)) :
    (Place.active next stack).ahead = (Place.active focus stack).ahead := by
  cases answered <;> rfl

theorem Focus.ahead_ended {focus next : Focus σ} (ended : focus.Ended next)
    (stack : List (Frame σ)) :
    (Place.active next stack).ahead ≤ (Place.active focus stack).ahead := by
  cases ended <;> simp [Place.ahead]

theorem Focus.ahead_caught {focus next : Focus σ} {payload : Payload}
    (caught : focus.caught payload = some next) (stack : List (Frame σ)) :
    (Place.active next stack).ahead ≤ (Place.active focus stack).ahead := by
  cases focus <;> cases caught <;> simp [Place.ahead]

namespace Strand

variable {before after : Strand σ} {input : Option (Input σ)} {strands : Nat → Strand σ}
  {first last : Nat}

/-- An interruption is due: it has been asked for, it is allowed, and there has been none. -/
def Pending (strand : Strand σ) : Prop := strand.holding.flags.shouldInterrupt = true

/-- The outcome of a fiber is handed to one of its frames. -/
def Applies (before after : Strand σ) : Prop :=
  ((∃ value stack, before.place = .active (.value value) stack) ∨
      ∃ cause stack, before.place = .active (.cause cause) stack) ∧
    ∃ code stack, after.place = .active (.building code) stack

theorem Applies.ahead (applies : Applies before after) :
    before.place.ahead = 2 ∧ after.place.ahead = 1 := by
  obtain ⟨⟨value, stack, was⟩ | ⟨cause, stack, was⟩, code, rest, is⟩ := applies <;>
    exact ⟨congrArg Place.ahead was, congrArg Place.ahead is⟩

/-- A step of a fiber that does not poll leads on to the poll, and changes nothing that it holds. -/
theorem Step.ahead (step : before.Step input after) (busy : ¬before.place.Polls) :
    after.holding = before.holding ∧ after.place.ahead ≤ before.place.ahead := by
  cases step with
  | interrupted => exact absurd ⟨_, _, rfl⟩ busy
  | interpreted => exact absurd ⟨_, _, rfl⟩ busy
  | delivered => exact ⟨rfl, by simp [Place.ahead]⟩
  | handled => exact ⟨rfl, by simp [Place.ahead]⟩
  | ended ended => exact ⟨rfl, Focus.ahead_ended ended _⟩
  | answered answered => exact ⟨rfl, (Focus.ahead_answered answered _).le⟩
  | panicked panics caught => exact ⟨rfl, Focus.ahead_caught caught _⟩
  | refused caught => exact ⟨rfl, Focus.ahead_caught caught _⟩
  | met => exact ⟨rfl, by simp [Place.ahead]⟩
  | parked => exact ⟨rfl, by simp [Place.ahead]⟩
  | resumed => exact ⟨rfl, by simp [Place.ahead]⟩

/-- One more request makes no difference to an interruption that is due. -/
theorem Pending.request (pending : before.Pending) : before.holding.request = before.holding := by
  obtain ⟨place, ⟨⟨requested, finalizing, status⟩, environments, executor⟩, calling⟩ := before
  -- The flag is raised already.
  cases requested with
  | false => cases pending
  | true => rfl

/-- While an interruption is due, a fiber stays where it is, or takes a step that leads on to the
poll, or is interrupted at the poll. -/
theorem Moves.pending (moves : before.Moves after) (pending : before.Pending) :
    after = before ∨
      (¬before.place.Polls ∧ after.holding = before.holding ∧
        after.place.ahead ≤ before.place.ahead) ∨
      ∃ current stack, before.place = .active (.node current) stack ∧
        after = ⟨.active (.node (.failNow .interrupt)) (.apply (.constant current) :: stack),
          before.holding.beginFinalizing, false⟩ := by
  have asked : ∀ holding, holding = before.holding ∨ holding = before.holding.request →
      holding = before.holding := fun holding asked => asked.elim id (·.trans pending.request)
  rcases moves.waits_or_steps with ⟨holding, rfl, same⟩ | ⟨holding, input, same, step⟩
  · obtain rfl := asked holding same
    exact .inl rfl
  · obtain rfl := asked holding same
    by_cases polls : before.place.Polls
    · obtain ⟨current, stack, place⟩ := polls
      rw [place] at step
      rcases step.of_polling with ⟨_, rfl⟩ | ⟨undue, _⟩
      · exact .inr (.inr ⟨current, stack, place, rfl⟩)
      · cases pending.symm.trans undue
    · exact .inr (.inl ⟨polls, step.ahead polls⟩)

/-- While an interruption is due and does not take effect, a fiber holds what it held and comes
closer to the poll. -/
theorem Stretch.pending (stretch : Stretch strands first last) (le : first ≤ last)
    (pending : (strands first).Pending) (calm : Calm strands first last) :
    (strands last).holding = (strands first).holding ∧
      (strands last).place.ahead ≤ (strands first).place.ahead := by
  induction last, le using Nat.le_induction with
  | base => exact ⟨rfl, le_rfl⟩
  | succ last le ih =>
    obtain ⟨holding, ahead⟩ := ih (stretch.mono le_rfl (Nat.le_succ last)) fun n low high =>
      calm n low (Nat.lt_succ_of_lt high)
    have due : (strands last).Pending := by rw [Pending, holding]; exact pending
    rcases (stretch last le (Nat.lt_succ_self last)).pending due with
      same | ⟨_, same, closer⟩ | ⟨current, stack, _, interrupted⟩
    · rw [same]
      exact ⟨holding, ahead⟩
    · exact ⟨same.trans holding, closer.trans ahead⟩
    · refine absurd ⟨finalizing_of_due due, ?_⟩ (calm last le (Nat.lt_succ_self last))
      rw [interrupted]
      rfl

theorem Stretch.pending_of_calm (stretch : Stretch strands first last) (le : first ≤ last)
    (pending : (strands first).Pending) (calm : Calm strands first last) :
    (strands last).Pending := by
  rw [Pending, (stretch.pending le pending calm).1]
  exact pending

/-- At the poll a fiber can only stay. -/
theorem Stretch.stays_at_poll (stretch : Stretch strands first last)
    (pending : (strands first).Pending) (calm : Calm strands first last) {n : Nat}
    (low : first ≤ n) (high : n < last) (polls : (strands n).place.Polls) :
    strands (n + 1) = strands n := by
  have due : (strands n).Pending := (stretch.mono le_rfl high.le).pending_of_calm low pending
    fun m low' high' => calm m low' (high'.trans high)
  rcases (stretch n low high).pending due with same | ⟨busy, _⟩ | ⟨current, stack, _, interrupted⟩
  · exact same
  · exact absurd polls busy
  · refine absurd ⟨finalizing_of_due due, ?_⟩ (calm n low high)
    rw [interrupted]
    rfl

/-- At most one frame is run before the poll. -/
theorem Stretch.applies_once (stretch : Stretch strands first last)
    (pending : (strands first).Pending) (calm : Calm strands first last) {n m : Nat}
    (low : first ≤ n) (lt : n < m) (high : m < last)
    (applies : Applies (strands n) (strands (n + 1))) :
    ¬Applies (strands m) (strands (m + 1)) := by
  intro again
  have due : (strands (n + 1)).Pending :=
    (stretch.mono le_rfl (by omega)).pending_of_calm (by omega) pending
      fun k low' high' => calm k low' (by omega)
  have closer := ((stretch.mono (by omega) high.le).pending lt due
    fun k low' high' => calm k (by omega) (by omega)).2
  -- A frame leaves one step to the poll, but another frame would need two.
  rw [applies.ahead.2, again.ahead.1] at closer
  omega

/-- A value that arrives for a suspended fiber is polled before it is used. -/
theorem Moves.of_suspended (moves : before.Moves after) {callback : CallbackId}
    {stack : List (Frame σ)} (place : before.place = .suspended callback stack) :
    after.place = before.place ∨ ∃ value, after.place = .active (.node (.succeed value)) stack := by
  rcases moves.waits_or_steps with ⟨holding, rfl, _⟩ | ⟨holding, input, _, step⟩
  · exact .inl rfl
  · rw [place] at step
    cases step with
    | resumed => exact .inr ⟨_, rfl⟩

end Strand

end Fibers
