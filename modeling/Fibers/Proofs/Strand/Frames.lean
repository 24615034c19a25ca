import Fibers.Proofs.Effect.Authored
import Fibers.Proofs.Strand.Step
import Mathlib.Data.Nat.Find

/-!
# Frames under a fiber

A fiber works on top of its frames. It comes back to a frame only with an outcome for it, and it
takes the frame off in the step after that.

## Main results

`Strand.Step.above`: frames that are not reached stay where they are. `Strand.Step.of_reaches_fold`
and `Strand.Step.of_reaches_apply`: what a frame does with an outcome.
-/

namespace Fibers

variable {σ : Type}

/-- A stack is not the one that is left under some of its frames. -/
theorem ne_append_cons (frames : List (Frame σ)) (frame : Frame σ) (stack : List (Frame σ)) :
    stack ≠ frames ++ frame :: stack := by
  intro same
  have count := congrArg List.length same
  rw [List.length_append, List.length_cons] at count
  omega

namespace Place

/-- A fiber with one more frame is somewhere else. -/
theorem push_ne {focus focus' : Focus σ} {frame : Frame σ} {stack : List (Frame σ)} :
    active focus (frame :: stack) ≠ active focus' stack :=
  fun same => List.cons_ne_self frame stack (active.inj same).2

theorem Reaches.unique {stack : List (Frame σ)} {place : Place σ} {exit exit' : Exit Erased}
    (h : place.Reaches stack exit) (h' : place.Reaches stack exit') : exit = exit' := by
  cases h with
  | value value => cases h'; rfl
  | cause cause dropped =>
    generalize dropped.map Frame.apply ++ stack = whole at h'
    cases h'
    rfl

theorem Reaches.above {stack : List (Frame σ)} {place : Place σ} {exit : Exit Erased}
    (h : place.Reaches stack exit) : stack <:+ place.stack := by
  cases h with
  | value => exact List.suffix_rfl
  | cause cause dropped => exact List.suffix_append _ _

/-- A cause that reaches a plain frame reaches what is under it. -/
theorem Reaches.of_apply {stack : List (Frame σ)} {place : Place σ} {cause : Cause}
    {continuation : Continuation σ}
    (h : place.Reaches (.apply continuation :: stack) (.failure cause)) :
    place.Reaches stack (.failure cause) := by
  cases h with
  | cause _ dropped =>
    have h : Reaches stack
        (.active (.cause cause) ((dropped ++ [continuation]).map .apply ++ stack))
        (.failure cause) := .cause cause _
    simpa using h

/-- A cause passes a plain frame. -/
theorem Reaches.push {stack frames : List (Frame σ)} {cause : Cause} {exit : Exit Erased}
    (h : Reaches stack (.active (.cause cause) frames) exit) (continuation : Continuation σ) :
    Reaches stack (.active (.cause cause) (.apply continuation :: frames)) exit := by
  cases h with
  | cause _ dropped => exact .cause cause (continuation :: dropped)

/-- What is above a handler reaches the handler first. -/
theorem Reaches.not_above_fold {stack : List (Frame σ)} {place : Place σ} {exit : Exit Erased}
    {handler : Handler σ} (h : place.Reaches stack exit) :
    ¬.fold handler :: stack <:+ place.stack := by
  rintro ⟨inner, same⟩
  cases h with
  | value => exact ne_append_cons inner _ stack same.symm
  | cause cause dropped =>
    have same : (inner ++ [.fold handler]) ++ stack = dropped.map .apply ++ stack := by
      simpa [Place.stack] using same
    have mem : Frame.fold handler ∈ dropped.map Frame.apply := by
      rw [← List.append_cancel_right same]
      simp
    simp at mem

/-- A value that reaches a stack is not above one more frame; a cause has reached that frame too. -/
theorem Reaches.of_above_apply {stack : List (Frame σ)} {place : Place σ} {exit : Exit Erased}
    {continuation : Continuation σ} (h : place.Reaches stack exit)
    (above : .apply continuation :: stack <:+ place.stack) :
    place.Reaches (.apply continuation :: stack) exit := by
  obtain ⟨inner, same⟩ := above
  cases h with
  | value => exact absurd same.symm (ne_append_cons inner _ stack)
  | cause cause dropped =>
    have same : (inner ++ [.apply continuation]) ++ stack = dropped.map .apply ++ stack := by
      simpa [Place.stack] using same
    obtain ⟨first, last, rfl, _, one⟩ :=
      List.map_eq_append_iff.mp (List.append_cancel_right same).symm
    obtain ⟨other, rfl, own⟩ := List.map_eq_singleton_iff.mp one
    cases own
    have h : Reaches (.apply continuation :: stack)
        (.active (.cause cause) (first.map .apply ++ .apply continuation :: stack))
        (.failure cause) := .cause cause first
    simpa using h

/-- A value for more frames is not one for fewer. -/
theorem Reaches.not_below {continuation : Continuation σ} {stack : List (Frame σ)}
    {place : Place σ} {value : Erased} {exit : Exit Erased}
    (h : place.Reaches (.apply continuation :: stack) (.success value)) :
    ¬place.Reaches stack exit := by
  intro h'
  cases h
  generalize whole : Frame.apply continuation :: stack = frames at h'
  cases h'
  exact List.cons_ne_self _ _ whole

end Place

namespace Strand

/-! ### Steps -/

/-- What is under some continuations is under all of them or reaches into them. -/
theorem suffix_append_apply {dropped : List (Continuation σ)} {stack rest : List (Frame σ)}
    (h : stack <:+ dropped.map .apply ++ rest) :
    (∃ first last, dropped = first ++ last ∧ stack = last.map .apply ++ rest) ∨
      stack <:+ rest := by
  induction dropped with
  | nil => exact .inr h
  | cons continuation dropped ih =>
    rcases List.suffix_cons_iff.mp h with rfl | h
    · exact .inl ⟨[], _, rfl, rfl⟩
    · rcases ih h with ⟨first, last, rfl, rfl⟩ | suffix
      · exact .inl ⟨continuation :: first, last, rfl, rfl⟩
      · exact .inr suffix

/-- Frames that are not reached stay where they are. -/
theorem Step.above {before after : Strand σ} {input : Option (Input σ)} {stack : List (Frame σ)}
    (step : before.Step input after) (above : stack <:+ before.place.stack)
    (inside : ∀ exit, ¬before.place.Reaches stack exit) : stack <:+ after.place.stack := by
  cases step with
  | interrupted => exact above.trans (List.suffix_cons _ _)
  | interpreted undue meaning =>
    cases meaning
    case flatMap | fold | withStatus | provide => exact above.trans (List.suffix_cons _ _)
    all_goals exact above
  | @delivered value frame rest =>
    rcases List.suffix_cons_iff.mp above with rfl | suffix
    · exact absurd (.value value) (inside _)
    · exact suffix
  | @handled cause whole rest handler holding calling found =>
    obtain ⟨dropped, rfl⟩ := unwind_eq_some_iff.mp found
    rcases suffix_append_apply above with ⟨first, last, rfl, rfl⟩ | suffix
    · rw [List.map_append, List.append_assoc] at inside
      exact absurd (.cause cause first) (inside _)
    · rcases List.suffix_cons_iff.mp suffix with rfl | suffix
      · exact absurd (.cause cause dropped) (inside _)
      · exact suffix
  | ended | answered | panicked | refused | met | parked | resumed => exact above

/-- A value goes to the topmost frame. -/
theorem Step.of_value {stack : List (Frame σ)} {value : Erased} {holding : Holding}
    {calling : Bool} {input : Option (Input σ)} {after : Strand σ}
    (step : Step ⟨.active (.value value) stack, holding, calling⟩ input after) :
    ∃ frame rest, stack = frame :: rest ∧ input = none ∧
      after = ⟨.active (.building (frame.resume value)) rest, holding, false⟩ := by
  cases step with
  | delivered => exact ⟨_, _, rfl, rfl, rfl⟩
  | ended ended => cases ended
  | answered answered => cases answered
  | panicked panics => cases panics
  | refused caught => cases caught

/-- A cause goes to the innermost handler. -/
theorem Step.of_cause {stack : List (Frame σ)} {cause : Cause} {holding : Holding}
    {calling : Bool} {input : Option (Input σ)} {after : Strand σ}
    (step : Step ⟨.active (.cause cause) stack, holding, calling⟩ input after) :
    ∃ handler rest, unwind stack = some (handler, rest) ∧ input = none ∧
      after = ⟨.active (.building (handler.recover cause)) rest, holding, false⟩ := by
  cases step with
  | handled found => exact ⟨_, _, found, rfl, rfl⟩
  | ended ended => cases ended
  | answered answered => cases answered
  | panicked panics => cases panics
  | refused caught => cases caught

/-- A handler that is reached is taken off and run on the outcome. -/
theorem Step.of_reaches_fold {before after : Strand σ} {input : Option (Input σ)}
    {stack : List (Frame σ)} {handler : Handler σ} {exit : Exit Erased}
    (step : before.Step input after)
    (reaches : before.place.Reaches (.fold handler :: stack) exit) :
    input = none ∧
      after = ⟨.active (.building (handler.receive exit)) stack, before.holding, false⟩ := by
  obtain ⟨place, holding, calling⟩ := before
  cases reaches with
  | value value =>
    obtain ⟨_, _, ⟨⟩, rfl, rfl⟩ := step.of_value
    exact ⟨rfl, rfl⟩
  | cause cause dropped =>
    have found : unwind (dropped.map .apply ++ .fold handler :: stack) = some (handler, stack) :=
      unwind_eq_some_iff.mpr ⟨dropped, rfl⟩
    obtain ⟨_, _, found', rfl, rfl⟩ := step.of_cause
    cases found.symm.trans found'
    exact ⟨rfl, rfl⟩

/-- A continuation that is reached by a value is taken off and run on it. -/
theorem Step.of_reaches_apply {before after : Strand σ} {input : Option (Input σ)}
    {stack : List (Frame σ)} {continuation : Continuation σ} {value : Erased}
    (step : before.Step input after)
    (reaches : before.place.Reaches (.apply continuation :: stack) (.success value)) :
    input = none ∧
      after = ⟨.active (.building (continuation.applyTo value)) stack, before.holding, false⟩ := by
  obtain ⟨place, holding, calling⟩ := before
  cases reaches
  obtain ⟨_, _, ⟨⟩, rfl, rfl⟩ := step.of_value
  exact ⟨rfl, rfl⟩

/-- A built effect is next. -/
theorem Step.of_built {stack : List (Frame σ)} {next : Node σ} {holding : Holding}
    {input : Option (Input σ)} {after : Strand σ}
    (step : Step ⟨.active (.building (.done next)) stack, holding, false⟩ input after) :
    input = none ∧ after = ⟨.active (.node next) stack, holding, false⟩ := by
  cases step with
  | ended ended => cases ended; exact ⟨rfl, rfl⟩
  | answered answered => cases answered with
    | building next => cases next
  | panicked panics => cases panics

/-- A computed cause is raised. -/
theorem Step.of_raised {stack : List (Frame σ)} {cause : Cause} {holding : Holding}
    {input : Option (Input σ)} {after : Strand σ}
    (step : Step ⟨.active (.raising (.done cause)) stack, holding, false⟩ input after) :
    input = none ∧ after = ⟨.active (.cause cause) stack, holding, false⟩ := by
  cases step with
  | ended ended => cases ended; exact ⟨rfl, rfl⟩
  | answered answered => cases answered with
    | raising next => cases next
  | panicked panics => cases panics

/-- An effect is interpreted, or an interruption takes effect instead. -/
theorem Step.of_polling {stack : List (Frame σ)} {current : Node σ} {holding : Holding}
    {calling : Bool} {input : Option (Input σ)} {after : Strand σ}
    (step : Step ⟨.active (.node current) stack, holding, calling⟩ input after) :
    holding.flags.shouldInterrupt = true ∧
        after = ⟨.active (.node (.failNow .interrupt)) (.apply (.constant current) :: stack),
          holding.beginFinalizing, false⟩ ∨
      holding.flags.shouldInterrupt = false ∧ current.Interprets stack holding input after := by
  cases step with
  | interrupted due => exact .inl ⟨due, rfl⟩
  | interpreted undue meaning => exact .inr ⟨undue, meaning⟩
  | ended ended => cases ended
  | answered answered => cases answered
  | panicked panics => cases panics
  | refused caught => cases caught

/-- Unless an interruption is due, an effect is interpreted. -/
theorem Step.interprets {stack : List (Frame σ)} {current : Node σ} {holding : Holding}
    {calling : Bool} {input : Option (Input σ)} {after : Strand σ}
    (step : Step ⟨.active (.node current) stack, holding, calling⟩ input after)
    (undue : holding.flags.shouldInterrupt = false) :
    current.Interprets stack holding input after := by
  rcases step.of_polling with ⟨due, _⟩ | ⟨_, meaning⟩
  · cases undue.symm.trans due
  · exact meaning

theorem interprets_restoreStatus {after : Strand σ} {status : InterruptStatus}
    {frames : List (Frame σ)}
    {holding : Holding} {input : Option (Input σ)}
    (meaning : (Node.restoreStatus status).Interprets frames holding input after) :
    input = none ∧ after = ⟨.active (.value .unit) frames, holding.setStatus status, false⟩ := by
  cases meaning
  exact ⟨rfl, rfl⟩

theorem interprets_leaveScope {after : Strand σ} {frames : List (Frame σ)} {holding : Holding}
    {input : Option (Input σ)} (meaning : Node.leaveScope.Interprets frames holding input after) :
    input = none ∧ after = ⟨.active (.value .unit) frames,
      { holding with environments := holding.environments.tail }, false⟩ := by
  cases meaning
  exact ⟨rfl, rfl⟩

/-! ### Moves -/

/-- In one move a fiber stays where it is, or it takes a step. -/
theorem Moves.waits_or_steps {before after : Strand σ} (moves : before.Moves after) :
    (∃ holding, after = ⟨before.place, holding, before.calling⟩ ∧
        (holding = before.holding ∨ holding = before.holding.request)) ∨
      ∃ holding input, (holding = before.holding ∨ holding = before.holding.request) ∧
        Step ⟨before.place, holding, before.calling⟩ input after := by
  obtain ⟨asked, rfl | rfl, rfl | ⟨input, step⟩⟩ := moves
  · exact .inl ⟨_, rfl, .inl rfl⟩
  · exact .inr ⟨_, input, .inl rfl, step⟩
  · exact .inl ⟨_, rfl, .inr rfl⟩
  · exact .inr ⟨_, input, .inr rfl, step⟩

theorem Moves.above {before after : Strand σ} {stack : List (Frame σ)}
    (moves : before.Moves after) (above : stack <:+ before.place.stack)
    (inside : ∀ exit, ¬before.place.Reaches stack exit) : stack <:+ after.place.stack := by
  rcases moves.waits_or_steps with ⟨holding, rfl, _⟩ | ⟨holding, input, _, step⟩
  · exact above
  · exact step.above above inside

/-! ### Stretches -/

/-- What one fiber does from one moment to another. -/
def Stretch (strands : Nat → Strand σ) (first last : Nat) : Prop :=
  ∀ n, first ≤ n → n < last → (strands n).Moves (strands (n + 1))

theorem Stretch.mono {strands : Nat → Strand σ} {first last first' last' : Nat}
    (stretch : Stretch strands first last) (low : first ≤ first') (high : last' ≤ last) :
    Stretch strands first' last' :=
  fun n low' high' => stretch n (low.trans low') (high'.trans_le high)

/-- A fiber that works above a stack comes down to it for the first time. -/
structure Leaves (strands : Nat → Strand σ) (first moment : Nat) (stack : List (Frame σ))
    (exit : Exit Erased) : Prop where
  le : first ≤ moment
  reaches : (strands moment).place.Reaches stack exit
  inside : ∀ n, first ≤ n → n < moment → ∀ exit, ¬(strands n).place.Reaches stack exit

theorem Stretch.above {strands : Nat → Strand σ} {first last : Nat} {stack : List (Frame σ)}
    (stretch : Stretch strands first last) (le : first ≤ last)
    (above : stack <:+ (strands first).place.stack)
    (inside : ∀ n, first ≤ n → n < last → ∀ exit, ¬(strands n).place.Reaches stack exit) :
    stack <:+ (strands last).place.stack := by
  induction last, le using Nat.le_induction with
  | base => exact above
  | succ last le ih =>
    have still := ih (stretch.mono le_rfl (Nat.le_succ last))
      (fun n low high => inside n low (Nat.lt_succ_of_lt high))
    exact (stretch last le (Nat.lt_succ_self last)).above still
      (inside last le (Nat.lt_succ_self last))

/-- Who comes down to a stack does so for a first time. -/
theorem exists_leaves {strands : Nat → Strand σ} {first last : Nat} {stack : List (Frame σ)}
    (le : first ≤ last) {exit : Exit Erased} (reaches : (strands last).place.Reaches stack exit) :
    ∃ moment exit, moment ≤ last ∧ Leaves strands first moment stack exit := by
  classical
  have some : ∃ n, first ≤ n ∧ ∃ exit, (strands n).place.Reaches stack exit :=
    ⟨last, le, exit, reaches⟩
  obtain ⟨low, exit, reaches'⟩ := Nat.find_spec some
  refine ⟨Nat.find some, exit, Nat.find_min' some ⟨le, _, reaches⟩, low, reaches', ?_⟩
  intro n low' lt exit' reaches'
  exact Nat.find_min some lt ⟨low', exit', reaches'⟩

/-! ### Interruptions -/

theorem finalizing_of_asked {holding holding' : Holding}
    (asked : holding' = holding ∨ holding' = holding.request) :
    holding'.flags.finalizing = holding.flags.finalizing := by
  rcases asked with rfl | rfl <;> rfl

theorem shouldInterrupt_of_finalizing {flags : InterruptFlags} (late : flags.finalizing = true) :
    flags.shouldInterrupt = false := by
  simp [InterruptFlags.shouldInterrupt, late]

theorem finalizing_of_due {flags : InterruptFlags} (due : flags.shouldInterrupt = true) :
    flags.finalizing = false := by
  simp only [InterruptFlags.shouldInterrupt, Bool.and_eq_true, Bool.not_eq_true'] at due
  exact due.2

/-- An interruption takes effect between two moments. It never does twice. -/
def Interrupted (before after : Strand σ) : Prop :=
  before.holding.flags.finalizing = false ∧ after.holding.flags.finalizing = true

theorem Step.finalizing {before after : Strand σ} {input : Option (Input σ)}
    (step : before.Step input after) :
    after.holding.flags.finalizing = before.holding.flags.finalizing ∨
      ∃ current stack, before.place = .active (.node current) stack ∧
        before.holding.flags.shouldInterrupt = true ∧
        after = ⟨.active (.node (.failNow .interrupt)) (.apply (.constant current) :: stack),
          before.holding.beginFinalizing, false⟩ := by
  cases step with
  | interrupted due => exact .inr ⟨_, _, rfl, due, rfl⟩
  | interpreted undue meaning => cases meaning <;> exact .inl rfl
  | _ => exact .inl rfl

/-- No interruption takes effect between two moments. -/
def Calm (strands : Nat → Strand σ) (first last : Nat) : Prop :=
  ∀ n, first ≤ n → n < last → ¬Interrupted (strands n) (strands (n + 1))

theorem Moves.finalizing {before after : Strand σ} (moves : before.Moves after)
    (late : before.holding.flags.finalizing = true) : after.holding.flags.finalizing = true := by
  rcases moves.waits_or_steps with ⟨asked, rfl, request⟩ | ⟨asked, input, request, step⟩
  · exact (finalizing_of_asked request).trans late
  · rcases step.finalizing with same | ⟨_, _, _, _, rfl⟩
    · exact same.trans ((finalizing_of_asked request).trans late)
    · rfl

theorem Stretch.finalizing {strands : Nat → Strand σ} {first last : Nat}
    (stretch : Stretch strands first last) (le : first ≤ last)
    (late : (strands first).holding.flags.finalizing = true) :
    (strands last).holding.flags.finalizing = true := by
  induction last, le using Nat.le_induction with
  | base => exact late
  | succ last le ih =>
    exact (stretch last le (Nat.lt_succ_self last)).finalizing
      (ih (stretch.mono le_rfl (Nat.le_succ last)))

/-- If an interruption has not taken effect at the end, it has not before. -/
theorem Stretch.calm {strands : Nat → Strand σ} {first last : Nat}
    (stretch : Stretch strands first last)
    (fresh : (strands last).holding.flags.finalizing = false) : Calm strands first last := by
  intro n low high interrupted
  have late := (stretch.mono (Nat.le_succ_of_le low) le_rfl).finalizing high interrupted.2
  cases fresh.symm.trans late

/-- An interruption has taken the place of an effect and is on its way to a stack. -/
inductive Cancelled (current : Node σ) (stack : List (Frame σ)) : Strand σ → Prop where
  | polling (holding : Holding) (calling : Bool) (late : holding.flags.finalizing = true) :
      Cancelled current stack ⟨.active (.node (.failNow .interrupt))
        (.apply (.constant current) :: stack), holding, calling⟩
  | raising (holding : Holding) :
      Cancelled current stack ⟨.active (.raising (.done .interrupt))
        (.apply (.constant current) :: stack), holding, false⟩
  | raised (holding : Holding) (calling : Bool) :
      Cancelled current stack ⟨.active (.cause .interrupt)
        (.apply (.constant current) :: stack), holding, calling⟩

theorem Cancelled.moves {before after : Strand σ} {current : Node σ} {stack : List (Frame σ)}
    (h : before.Cancelled current stack)
    (moves : before.Moves after) (inside : ∀ exit, ¬before.place.Reaches stack exit) :
    after.Cancelled current stack := by
  cases h with
  | polling holding calling late =>
    rcases moves.waits_or_steps with ⟨holding', rfl, asked⟩ | ⟨holding', input, asked, step⟩
    · exact .polling holding' calling ((finalizing_of_asked asked).trans late)
    · have undue := shouldInterrupt_of_finalizing ((finalizing_of_asked asked).trans late)
      cases step.interprets undue
      exact .raising holding'
  | raising holding =>
    rcases moves.waits_or_steps with ⟨holding', rfl, _⟩ | ⟨holding', input, _, step⟩
    · exact .raising holding'
    · obtain ⟨-, rfl⟩ := step.of_raised
      exact .raised holding' false
  | raised holding calling => exact absurd (.cause .interrupt [.constant current]) (inside _)

end Strand

end Fibers
