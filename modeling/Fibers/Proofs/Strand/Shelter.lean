import Fibers.Proofs.Strand.Finalizer
import Fibers.Proofs.Strand.Scope

/-!
# Uninterruptible regions

A fiber works above the frame that will put a status back, and may not be interrupted. Unless it
opens a region in which it may, this stays so until the status has been put back, and then comes a
poll.

## Main results

`Strand.Sheltered.moves` and `Strand.Closing.moves`: what one move does inside the region and at its
end. `Strand.Stretch.sheltered_or_closing` collects a stretch that begins in the region.

## Proof strategy

No frame of the region and no effect at hand sets the interruptible status (`opens`), since what is
put back inside was in force inside. The closing of a region is counted in places, from the outcome
(0) to the poll (6).
-/

namespace Fibers

variable {σ : Type}

/-! ### Opening -/

/-- The effect lets its fiber be interrupted again, to end a region. -/
def Node.opens : Node σ → Bool
  | .restoreStatus .interruptible => true
  | .flatMap (.restoreStatus .interruptible) _ => true
  | _ => false

/-- The effect at hand ends an uninterruptible region. -/
def Focus.opens : Focus σ → Bool
  | .node current => current.opens
  | .building (.done next) => next.opens
  | _ => false

/-- The frame is going to end an uninterruptible region. -/
def Frame.opens : Frame σ → Bool
  | .fold (.finalizer (.restoreStatus .interruptible)) => true
  | _ => false

theorem Node.Authored.opens {node : Node σ} (h : node.Authored) : node.opens = false := by
  cases h with
  | flatMap effect_authored => cases effect_authored <;> rfl
  | _ => rfl

theorem Focus.opens_of_yields {code : Code σ (Node σ)} (h : code.Yields Node.Authored) :
    (Focus.building code).opens = false := by
  cases code with
  | done next => exact (Action.yields_done_iff.mp h).opens
  | _ => rfl

/-- What a handler is run to opens no more than its frame was to. -/
theorem Frame.Authored.opens_receive {handler : Handler σ} (h : (Frame.fold handler).Authored)
    (exit : Exit Erased) :
    (Focus.building (handler.receive exit)).opens = (Frame.fold handler).opens := by
  cases h with
  | fold h =>
    refine (Focus.opens_of_yields (h.receive exit)).trans ?_
    cases h with
    | branches => rfl
    | finalizer effect_authored => cases effect_authored <;> rfl
  | restorer h =>
    rw [Handler.receive_finalizer]
    cases h with
    | restoreStatus status => cases status <;> rfl
    | leaveScope => rfl

/-- A frame that authored effects leave behind in a region in which they cannot be interrupted. -/
def Frame.Shut (frame : Frame σ) : Prop := frame.Authored ∧ frame.opens = false

namespace Strand

variable {stack : List (Frame σ)} {late : Bool} {saved : InterruptStatus} {exit : Exit Erased}
  {before after : Strand σ}

/-! ### In the region -/

/-- A fiber has a status, and an interruption of it has taken effect or not. -/
def Flagged (status : InterruptStatus) (late : Bool) (holding : Holding) : Prop :=
  holding.flags.status = status ∧ holding.flags.finalizing = late

theorem Flagged.asked {status : InterruptStatus} {holding holding' : Holding}
    (h : Flagged status late holding) (asked : holding' = holding ∨ holding' = holding.request) :
    Flagged status late holding' := by
  rcases asked with rfl | rfl <;> exact h

theorem Flagged.undue {holding : Holding} (h : Flagged .uninterruptible late holding) :
    holding.flags.shouldInterrupt = false := by
  simp [InterruptFlags.shouldInterrupt, InterruptStatus.isInterruptible, h.1]

/-- A fiber works on authored effects above a stack, and nothing lets it be interrupted there. -/
inductive Sheltered (late : Bool) (stack : List (Frame σ)) : Strand σ → Prop where
  | working {focus : Focus σ} {inner : List (Frame σ)} {holding : Holding} {calling : Bool}
      (focus_authored : focus.Authored) (focus_shut : focus.opens = false)
      (frames_shut : ∀ frame ∈ inner, frame.Shut)
      (shut : Flagged .uninterruptible late holding) :
      Sheltered late stack ⟨.active focus (inner ++ stack), holding, calling⟩
  | suspended {callback : CallbackId} {inner : List (Frame σ)} {holding : Holding} {calling : Bool}
      (frames_shut : ∀ frame ∈ inner, frame.Shut)
      (shut : Flagged .uninterruptible late holding) :
      Sheltered late stack ⟨.suspended callback (inner ++ stack), holding, calling⟩

theorem Sheltered.flagged (h : before.Sheltered late stack) :
    Flagged .uninterruptible late before.holding := by
  cases h with
  | working _ _ _ shut | suspended _ shut => exact shut

theorem Sheltered.above (h : before.Sheltered late stack) : stack <:+ before.place.stack := by
  cases h with
  | working | suspended => exact List.suffix_append _ _

/-- The fiber begins a region in which it may be interrupted. -/
def Opens (before after : Strand σ) : Prop :=
  ∃ effect frames, before.place = .active (.node (.withStatus effect .interruptible)) frames ∧
    after.place ≠ before.place

theorem sheltered_push {focus : Focus σ} {frame : Frame σ} {inner : List (Frame σ)}
    {holding : Holding} (focus_authored : focus.Authored) (focus_shut : focus.opens = false)
    (frame_shut : frame.Shut) (frames_shut : ∀ frame ∈ inner, frame.Shut)
    (shut : Flagged .uninterruptible late holding) :
    Sheltered late stack ⟨.active focus (frame :: (inner ++ stack)), holding, false⟩ := by
  have frames := List.forall_mem_cons.mpr ⟨frame_shut, frames_shut⟩
  exact .working focus_authored focus_shut frames shut

theorem sheltered_of_interpreted {current : Node σ} {inner : List (Frame σ)} {holding : Holding}
    {calling : Bool} {input : Option (Input σ)} (focus_authored : (Focus.node current).Authored)
    (focus_shut : current.opens = false) (frames_shut : ∀ frame ∈ inner, frame.Shut)
    (shut : Flagged .uninterruptible late holding)
    (meaning : current.Interprets (inner ++ stack) holding input after)
    (closed : ¬Opens ⟨.active (.node current) (inner ++ stack), holding, calling⟩ after) :
    after.Sheltered late stack := by
  -- An effect at hand is authored, or it is one that puts something back.
  cases focus_authored with
  | node h =>
    cases h with
    | succeed value =>
      cases meaning
      exact .working (.value value) rfl frames_shut shut
    | sync code =>
      cases meaning
      exact .working (.thunk code) rfl frames_shut shut
    | flatMap effect_authored continuation_authored =>
      cases meaning
      exact sheltered_push (.node effect_authored) effect_authored.opens
        ⟨.apply continuation_authored, rfl⟩ frames_shut shut
    | async register =>
      cases meaning
      exact .working (.registering _ _) rfl frames_shut shut
    | fork effect_authored =>
      cases meaning
      exact .working (.value _) rfl frames_shut shut
    | fail code =>
      cases meaning
      exact .working (.raising code) rfl frames_shut shut
    | fold effect_authored handler_authored =>
      cases meaning
      have frame_authored := Frame.Authored.fold handler_authored
      -- An authored handler builds authored effects only, so its frame opens nothing either.
      have frame_shut := (frame_authored.opens_receive (.success .unit)).symm.trans
        (Focus.opens_of_yields (handler_authored.receive _))
      exact sheltered_push (.node effect_authored) effect_authored.opens
        ⟨frame_authored, frame_shut⟩ frames_shut shut
    | shift executor =>
      cases meaning
      exact .working (.node (.succeed .unit)) rfl frames_shut shut
    | @withStatus effect effect_authored status =>
      cases meaning
      cases status with
      | interruptible =>
        -- This would open a region inside.
        exact absurd ⟨effect, inner ++ stack, rfl, Place.push_ne⟩ closed
      | uninterruptible =>
        -- The status to put back is the one in force.
        rw [shut.1]
        exact sheltered_push (.node effect_authored) effect_authored.opens
          ⟨.restorer (.restoreStatus _), rfl⟩ frames_shut ⟨rfl, shut.2⟩
    | provide effect_authored environment =>
      cases meaning
      exact sheltered_push (.node effect_authored) effect_authored.opens
        ⟨.restorer .leaveScope, rfl⟩ frames_shut shut
    | access continuation_authored =>
      cases meaning with
      | @access _ environment _ provided =>
        have built := continuation_authored.applyTo environment
        exact .working (.building built) (Focus.opens_of_yields built) frames_shut shut
      | accessNothing => exact .working (.cause _) rfl frames_shut shut
  | due h exit =>
    cases meaning
    refine sheltered_push (.restoring h) ?_ ⟨.apply (.constant (Node.authored_ofExit exit)), rfl⟩
      frames_shut shut
    cases h with
    | restoreStatus status => cases status <;> exact focus_shut
    | leaveScope => rfl
  | restoring h =>
    cases h with
    | restoreStatus status =>
      cases meaning
      cases status with
      | interruptible => cases focus_shut
      | uninterruptible => exact .working (.value .unit) rfl frames_shut ⟨rfl, shut.2⟩
    | leaveScope =>
      cases meaning
      exact .working (.value .unit) rfl frames_shut shut

theorem sheltered_of_received {handler : Handler σ} {inner : List (Frame σ)} {holding : Holding}
    (handler_shut : (Frame.fold handler).Shut) (frames_shut : ∀ frame ∈ inner, frame.Shut)
    (shut : Flagged .uninterruptible late holding) (exit : Exit Erased) :
    Sheltered late stack
      ⟨.active (.building (handler.receive exit)) (inner ++ stack), holding, false⟩ :=
  .working (handler_shut.1.receive exit).1
    ((handler_shut.1.opens_receive exit).trans handler_shut.2)
    frames_shut shut

/-- A step above the stack leaves the fiber in the region, unless it opens one inside. -/
theorem Step.sheltered_of_working {focus : Focus σ} {inner : List (Frame σ)} {holding : Holding}
    {calling : Bool} {input : Option (Input σ)}
    (step : Step ⟨.active focus (inner ++ stack), holding, calling⟩ input after)
    (closed : ¬Opens ⟨.active focus (inner ++ stack), holding, calling⟩ after)
    (inside : ∀ exit, ¬Place.Reaches stack (.active focus (inner ++ stack)) exit)
    (focus_authored : focus.Authored) (focus_shut : focus.opens = false)
    (frames_shut : ∀ frame ∈ inner, frame.Shut)
    (shut : Flagged .uninterruptible late holding) : after.Sheltered late stack := by
  generalize whole : inner ++ stack = frames at step closed inside
  cases step with
  | interrupted due => cases shut.undue.symm.trans due
  | interpreted undue meaning =>
    subst whole
    exact sheltered_of_interpreted focus_authored focus_shut frames_shut shut meaning closed
  | @delivered value frame rest =>
    cases inner with
    | nil =>
      cases whole
      exact absurd (.value value) (inside _)
    | cons first inner =>
      obtain ⟨rfl, rfl⟩ := List.cons.inj whole
      obtain ⟨frame_shut, rest_shut⟩ := List.forall_mem_cons.mp frames_shut
      cases first with
      | fold handler => exact sheltered_of_received frame_shut rest_shut shut (.success value)
      | apply continuation =>
        cases frame_shut.1 with
        | apply h =>
          have built := h.applyTo value
          exact .working (.building built) (Focus.opens_of_yields built) rest_shut shut
  | @handled cause _ rest handler _ _ found =>
    subst whole
    -- The innermost handler is in the region, or the cause has left it.
    rcases unwind_append found with ⟨dropped, inner', rfl, rfl⟩ | ⟨dropped, rfl⟩
    · obtain ⟨handler_shut, frames_shut⟩ :=
        List.forall_mem_cons.mp (List.forall_mem_append.mp frames_shut).2
      exact sheltered_of_received handler_shut frames_shut shut (.failure cause)
    · exact absurd (.cause cause dropped) (inside _)
  | ended ended =>
    subst whole
    cases ended with
    | thunk value => exact .working (.value value) rfl frames_shut shut
    | raising cause => exact .working (.cause cause) rfl frames_shut shut
    | building next =>
      cases focus_authored with
      | building h =>
        have next_authored := Action.yields_done_iff.mp h
        exact .working (.node next_authored) next_authored.opens frames_shut shut
      | ending h exit => exact .working (.due h exit) focus_shut frames_shut shut
  | answered answered =>
    subst whole
    cases answered with
    | thunk next => exact .working (.thunk _) rfl frames_shut shut
    | raising next => exact .working (.raising _) rfl frames_shut shut
    | registering next => exact .working (.registering _ _) rfl frames_shut shut
    | building next =>
      cases focus_authored with
      | ending => cases next
      | building h =>
        have built := h.answered next
        exact .working (.building built) (Focus.opens_of_yields built) frames_shut shut
  | panicked panics caught =>
    subst whole
    cases panics <;> cases caught
    case building.refl => exact .working (.node (Node.authored_failNow _)) rfl frames_shut shut
    all_goals exact .working (.cause _) rfl frames_shut shut
  | refused caught =>
    subst whole
    cases focus <;> cases caught
    case building.refl => exact .working (.node (Node.authored_failNow _)) rfl frames_shut shut
    all_goals exact .working (.cause _) rfl frames_shut shut
  | met =>
    subst whole
    exact .working (.value _) rfl frames_shut shut
  | parked =>
    subst whole
    exact .suspended frames_shut shut

/-- In one move a fiber stays in the region, unless it opens one inside. -/
theorem Sheltered.moves (h : before.Sheltered late stack) (moves : before.Moves after)
    (closed : ¬Opens before after) (inside : ∀ exit, ¬before.place.Reaches stack exit) :
    after.Sheltered late stack := by
  cases h with
  | working focus_authored focus_shut frames_shut shut =>
    rcases moves.waits_or_steps with ⟨asked, rfl, request⟩ | ⟨asked, input, request, step⟩
    · exact .working focus_authored focus_shut frames_shut (shut.asked request)
    · exact step.sheltered_of_working closed inside focus_authored focus_shut frames_shut
        (shut.asked request)
  | suspended frames_shut shut =>
    rcases moves.waits_or_steps with ⟨asked, rfl, request⟩ | ⟨asked, input, request, step⟩
    · exact .suspended frames_shut (shut.asked request)
    · cases step
      exact .working (.node (.succeed _)) rfl frames_shut (shut.asked request)

/-! ### At the end of the region -/

/-- The frame under a region that puts the status back. -/
def statusFrame (saved : InterruptStatus) : Frame σ := .fold (.finalizer (.restoreStatus saved))

/-- An outcome has left a region, and the status from before is put back, which leads to a poll. -/
inductive Closing (saved : InterruptStatus) (late : Bool) (exit : Exit Erased)
    (stack : List (Frame σ)) : Nat → Strand σ → Prop where
  | left {strand : Strand σ} (reaches : strand.place.Reaches (statusFrame saved :: stack) exit)
      (shut : Flagged .uninterruptible late strand.holding) :
      Closing saved late exit stack 0 strand
  | built {holding : Holding} (shut : Flagged .uninterruptible late holding) :
      Closing saved late exit stack 1
        ⟨.active (.building (.done ((Node.restoreStatus saved).andThen (.ofExit exit)))) stack,
          holding, false⟩
  | due {holding : Holding} (shut : Flagged .uninterruptible late holding) :
      Closing saved late exit stack 2
        ⟨.active (.node ((Node.restoreStatus saved).andThen (.ofExit exit))) stack, holding, false⟩
  | restoring {holding : Holding} (shut : Flagged .uninterruptible late holding) :
      Closing saved late exit stack 3
        ⟨.active (.node (.restoreStatus saved)) (keeper exit :: stack), holding, false⟩
  | restored {holding : Holding} (back : Flagged saved late holding) :
      Closing saved late exit stack 4
        ⟨.active (.value .unit) (keeper exit :: stack), holding, false⟩
  | rebuilt {holding : Holding} (back : Flagged saved late holding) :
      Closing saved late exit stack 5
        ⟨.active (.building (.done (.ofExit exit))) stack, holding, false⟩
  | polling {holding : Holding} (back : Flagged saved late holding) :
      Closing saved late exit stack 6 ⟨.active (.node (.ofExit exit)) stack, holding, false⟩

/-- In one move the end of a region comes nearer to the poll, or the fiber polls. -/
theorem Closing.moves {age : Nat} (h : before.Closing saved late exit stack age)
    (moves : before.Moves after) :
    (after.place = before.place ∧ after.Closing saved late exit stack age) ∨
      after.Closing saved late exit stack (age + 1) ∨
      (age = 6 ∧ after.place ≠ before.place) := by
  rcases moves.waits_or_steps with ⟨asked, rfl, request⟩ | ⟨asked, input, request, step⟩
  · refine .inl ⟨rfl, ?_⟩
    cases h with
    | left reaches shut => exact .left reaches (shut.asked request)
    | built shut => exact .built (shut.asked request)
    | due shut => exact .due (shut.asked request)
    | restoring shut => exact .restoring (shut.asked request)
    | restored back => exact .restored (back.asked request)
    | rebuilt back => exact .rebuilt (back.asked request)
    | polling back => exact .polling (back.asked request)
  · refine .inr ?_
    cases h with
    | left reaches shut =>
      obtain ⟨-, rfl⟩ := step.of_reaches_fold reaches
      rw [Handler.receive_finalizer]
      exact .inl (.built (shut.asked request))
    | built shut =>
      obtain ⟨-, rfl⟩ := step.of_built
      exact .inl (.due (shut.asked request))
    | due shut =>
      cases step.interprets (shut.asked request).undue
      exact .inl (.restoring (shut.asked request))
    | restoring shut =>
      have meaning := step.interprets (shut.asked request).undue
      obtain ⟨-, rfl⟩ := interprets_restoreStatus meaning
      exact .inl (.restored ⟨rfl, (shut.asked request).2⟩)
    | restored back =>
      obtain ⟨-, rfl⟩ := step.of_reaches_apply (.value .unit)
      exact .inl (.rebuilt (back.asked request))
    | rebuilt back =>
      obtain ⟨-, rfl⟩ := step.of_built
      exact .inl (.polling (back.asked request))
    | polling back =>
      -- Whether the poll lets the outcome through or not, the fiber goes on.
      refine .inr ⟨rfl, ?_⟩
      rcases step.of_polling with ⟨_, rfl⟩ | ⟨_, meaning⟩
      · exact Place.push_ne
      · cases exit <;> cases meaning <;> simp

/-- The frames under a region are not reached before the poll. -/
theorem Closing.not_reaches {age : Nat} (h : before.Closing saved late exit stack age)
    (exit' : Exit Erased) : ¬before.place.Reaches stack exit' := by
  intro reaches
  cases h with
  | left reaches' => exact reaches.not_above_fold reaches'.above
  | restored =>
    generalize whole : keeper exit :: stack = frames at reaches
    cases reaches
    exact List.cons_ne_self _ _ whole
  | built | due | restoring | rebuilt | polling => cases reaches

/-- While a region closes, its fiber may be interrupted at the last poll only. -/
theorem Closing.shut_of_node {age : Nat} (h : before.Closing saved late exit stack age)
    {current : Node σ} {frames : List (Frame σ)}
    (place : before.place = .active (.node current) frames) :
    age = 6 ∨ Flagged .uninterruptible late before.holding := by
  cases h with
  | polling => exact .inl rfl
  | due shut | restoring shut => exact .inr shut
  | left reaches =>
    rw [place] at reaches
    cases reaches
  | built | restored | rebuilt => cases place

/-- The poll that ends the closing is the only one before an outcome. -/
theorem Closing.of_polling {age : Nat} {exit' : Exit Erased}
    (h : before.Closing saved late exit' stack age)
    (place : before.place = .active (.node (.ofExit exit)) stack) :
    age = 6 ∧ exit' = exit ∧ Flagged saved late before.holding := by
  cases h with
  | polling back =>
    have same : (Node.ofExit exit' : Node σ) = .ofExit exit := by simpa using place
    refine ⟨rfl, ?_, back⟩
    cases exit' <;> cases exit <;> cases same <;> rfl
  | left reaches =>
    rw [place] at reaches
    cases reaches
  | due =>
    have same : (Node.restoreStatus saved : Node σ).andThen (.ofExit exit') = .ofExit exit := by
      simpa using place
    exact absurd same (andThen_ne_ofExit _ _ _)
  | restoring => exact absurd place Place.push_ne
  | built | restored | rebuilt => cases place

end Strand

end Fibers
