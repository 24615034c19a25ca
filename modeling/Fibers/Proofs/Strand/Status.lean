import Fibers.Proofs.Strand.Finalizer

/-!
# Interrupt statuses

A region with an interrupt status of its own ends with a finalizer that puts the old status back.
Unlike an environment, which is dropped, a status is set, so the regions inside do not matter.

## Main results

`Strand.Stretch.status_iff`: a region is left with the status that it was entered with, exactly if
no interruption takes effect where that status is about to be put back, or it is the interruptible
one.

## Proof strategy

A fiber is in the region (`InRegion`) or on its way to the frames under it (`Leaving`), where
nothing touches the status. `InRegion.moves` says how it gets from one to the other.
-/

namespace Fibers

variable {σ : Type}

namespace Strand

variable {effect : Node σ} {own saved : InterruptStatus} {exit : Exit Erased}
  {stack : List (Frame σ)} {before after : Strand σ}

/-! ### Interruptions -/

theorem Moves.cancelled (moves : before.Moves after) (interrupted : Interrupted before after) :
    ∃ current frames, before.place = .active (.node current) frames ∧
      after.Cancelled current frames ∧ before.holding.flags.status = .interruptible ∧
      after.holding.flags.status = .interruptible := by
  rcases moves.waits_or_steps with ⟨asked, rfl, request⟩ | ⟨asked, input, request, step⟩
  · cases (finalizing_of_asked request).symm.trans interrupted.2 |>.symm.trans interrupted.1
  · rcases step.finalizing with same | ⟨current, frames, place, due, rfl⟩
    · have late := (same.trans (finalizing_of_asked request)).symm.trans interrupted.2
      cases late.symm.trans interrupted.1
    · refine ⟨current, frames, place, .polling _ _ rfl, ?_⟩
      simp only [InterruptFlags.shouldInterrupt, Bool.and_eq_true] at due
      have open' : asked.flags.status = .interruptible := by
        cases whole : asked.flags.status with
        | interruptible => rfl
        | uninterruptible => simp [whole, InterruptStatus.isInterruptible] at due
      rcases request with rfl | rfl <;> exact ⟨open', open'⟩

/-! ### On the way down -/

/-- A fiber is on its way to a stack, and nothing but an outcome is between. -/
inductive Leaving (stack : List (Frame σ)) : Strand σ → Prop where
  | concluded {strand : Strand σ} {exit : Exit Erased} (concluded : strand.Concluded exit stack) :
      Leaving stack strand
  | cancelled {strand : Strand σ} {current : Node σ} (cancelled : strand.Cancelled current stack) :
      Leaving stack strand
  | cancelledAbove {strand : Strand σ} {current : Node σ} {exit : Exit Erased}
      (cancelled : strand.Cancelled current (keeper exit :: stack)) : Leaving stack strand

theorem Leaving.moves (h : before.Leaving stack) (moves : before.Moves after)
    (inside : ∀ exit, ¬before.place.Reaches stack exit) : after.Leaving stack := by
  cases h with
  | concluded concluded => exact .concluded (concluded.moves moves inside)
  | cancelled cancelled => exact .cancelled (cancelled.moves moves inside)
  | @cancelledAbove current exit cancelled =>
    refine .cancelledAbove (cancelled.moves moves fun result reaches => ?_)
    cases cancelled with
    | polling | raising => cases reaches
    | raised => exact inside _ (.cause .interrupt [.constant current, .constant (.ofExit exit)])

/-- The only effects on the way down are outcomes. -/
theorem Leaving.node (h : before.Leaving stack) {current : Node σ} {frames : List (Frame σ)}
    (place : before.place = .active (.node current) frames) : ∃ exit, current = .ofExit exit := by
  cases h with
  | cancelled cancelled | cancelledAbove cancelled =>
    cases cancelled with
    | polling =>
      cases place
      exact ⟨.failure .interrupt, rfl⟩
    | raising | raised => cases place
  | concluded concluded =>
    cases concluded with
    | ended reaches =>
      rw [place] at reaches
      cases reaches
    | passing passing =>
      cases passing with
      | built | raising => cases place
      | polling =>
        cases place
        exact ⟨_, rfl⟩
      | passed reaches =>
        rw [place] at reaches
        cases reaches
      | cancelled cancelled =>
        cases cancelled with
        | polling =>
          cases place
          exact ⟨.failure .interrupt, rfl⟩
        | raising | raised => cases place

theorem Leaving.status (h : before.Leaving stack) (moves : before.Moves after) :
    after.holding.flags.status = before.holding.flags.status := by
  obtain ⟨place, holding, calling⟩ := before
  rcases moves.waits_or_steps with ⟨asked, rfl, rfl | rfl⟩ | ⟨asked, input, request, step⟩
  · rfl
  · rfl
  · have same : after.holding.flags.status = asked.flags.status := by
      cases step with
      | interpreted undue meaning =>
        obtain ⟨exit, rfl⟩ := h.node rfl
        cases exit <;> cases meaning <;> rfl
      | _ => rfl
    rcases request with rfl | rfl <;> exact same

/-! ### In the region -/

/-- A status is about to be put back by the region above a stack. -/
def Restoring (saved : InterruptStatus) (stack : List (Frame σ)) (place : Place σ) : Prop :=
  ∃ exit,
    place = .active (.node ((Node.restoreStatus saved).andThen (.ofExit exit))) stack ∨
      place = .active (.node (.restoreStatus saved)) (keeper exit :: stack)

/-- An interruption takes effect where a status was about to be put back. -/
def Skips (saved : InterruptStatus) (stack : List (Frame σ)) (before after : Strand σ) : Prop :=
  Interrupted before after ∧ Restoring saved stack before.place

theorem Leaving.not_skips (h : before.Leaving stack) {stack' : List (Frame σ)} :
    ¬Skips saved stack' before after := by
  rintro ⟨-, exit, place | place⟩
  · obtain ⟨exit', same⟩ := h.node place
    exact andThen_ne_ofExit _ _ _ same
  · obtain ⟨exit', same⟩ := h.node place
    cases exit' <;> cases same

/-- A fiber has not come to the end of a region: it has not entered it yet, or the status is still
to be put back. -/
inductive InRegion (effect : Node σ) (status saved : InterruptStatus) (stack : List (Frame σ)) :
    Strand σ → Prop where
  | before {holding : Holding} {calling : Bool} (same : holding.flags.status = saved) :
      InRegion effect status saved stack
        ⟨.active (.node (.withStatus effect status)) stack, holding, calling⟩
  | inside {strand : Strand σ}
      (above : .fold (.finalizer (.restoreStatus saved)) :: stack <:+ strand.place.stack) :
      InRegion effect status saved stack strand
  | waiting {strand : Strand σ} {exit : Exit Erased} {age : Nat}
      (waiting : strand.Waiting (.restoreStatus saved) exit stack age) :
      InRegion effect status saved stack strand
  | restoring {strand : Strand σ} {exit : Exit Erased}
      (place : strand.place = .active (.node (.restoreStatus saved)) (keeper exit :: stack)) :
      InRegion effect status saved stack strand

theorem restoring_above {place : Place σ} (h : Restoring saved stack place) :
    ¬.fold (.finalizer (.restoreStatus saved)) :: stack <:+ place.stack := by
  intro above
  obtain ⟨exit, rfl | rfl⟩ := h
  · have := above.length_le
    simp only [Place.stack, List.length_cons] at this
    omega
  · have same := above.eq_of_length rfl
    cases same

theorem Waiting.in_region {age : Nat} (h : before.Waiting (.restoreStatus saved) exit stack age)
    (moves : before.Moves after) (calm : ¬Interrupted before after) :
    after.InRegion effect own saved stack := by
  rcases h.moves moves with ⟨_, _, ⟨_, waiting⟩ | waiting⟩ | ⟨_, starts⟩ | ⟨interrupted, _, _⟩
  · exact .waiting waiting
  · exact .waiting waiting
  · exact .restoring starts.2
  · exact absurd interrupted calm

/-- A step leads on in the region, or out of it with the status that was put back, or out of it with
the interruptible status, because that was missed. -/
theorem InRegion.moves (h : before.InRegion effect own saved stack) (moves : before.Moves after) :
    (¬Skips saved stack before after ∧ after.InRegion effect own saved stack) ∨
      (¬Skips saved stack before after ∧ after.Leaving stack ∧
        after.holding.flags.status = saved) ∨
      (Skips saved stack before after ∧ after.Leaving stack ∧
        after.holding.flags.status = .interruptible) := by
  -- Only a step that takes the interruption can skip the restorer, so it is split off first.
  by_cases interrupted : Interrupted before after
  · obtain ⟨current, frames, place, cancelled, old, new⟩ := moves.cancelled interrupted
    cases h with
    | before same =>
      cases place
      refine .inr (.inl ⟨?_, .cancelled cancelled, new.trans (old.symm.trans same)⟩)
      rintro ⟨-, exit, other | other⟩ <;> cases other
    | inside above =>
      refine .inl ⟨fun skips => restoring_above skips.2 above, .inside ?_⟩
      rw [place] at above
      cases cancelled with
      | polling | raising | raised => exact above.trans (List.suffix_cons _ _)
    | waiting waiting =>
      cases waiting with
      | left reaches =>
        rw [place] at reaches
        cases reaches
      | built => cases place
      | @polling exit =>
        cases place
        exact .inr (.inr ⟨⟨interrupted, _, .inl rfl⟩, .cancelled cancelled, new⟩)
    | restoring place' =>
      cases place.symm.trans place'
      exact .inr (.inr ⟨⟨interrupted, _, .inr place'⟩, .cancelledAbove cancelled, new⟩)
  · have calm : ¬Skips saved stack before after := fun skips => interrupted skips.1
    cases h with
    | @before holding calling same =>
      rcases moves.waits_or_steps with ⟨asked, rfl, request⟩ | ⟨asked, input, request, step⟩
      · refine .inl ⟨calm, .before (Eq.trans ?_ same)⟩
        rcases request with rfl | rfl <;> rfl
      · rcases step.of_polling with ⟨due, rfl⟩ | ⟨_, meaning⟩
        · exact absurd ⟨(finalizing_of_asked request).symm.trans (finalizing_of_due due), rfl⟩
            interrupted
        · cases meaning
          have saved' : asked.flags.status = saved := by
            rcases request with rfl | rfl <;> exact same
          rw [← saved']
          exact .inl ⟨saved' ▸ calm, .inside List.suffix_rfl⟩
    | inside above =>
      by_cases reached : ∃ exit,
          before.place.Reaches (.fold (.finalizer (.restoreStatus saved)) :: stack) exit
      · obtain ⟨exit, reaches⟩ := reached
        exact .inl ⟨calm, (Waiting.left reaches).in_region moves interrupted⟩
      · exact .inl ⟨calm, .inside (moves.above above (not_exists.mp reached))⟩
    | waiting waiting => exact .inl ⟨calm, waiting.in_region moves interrupted⟩
    | @restoring _ exit place =>
      rcases moves.waits_or_steps with ⟨asked, rfl, _⟩ | ⟨asked, input, request, step⟩
      · exact .inl ⟨calm, .restoring place⟩
      · rw [place] at step
        rcases step.of_polling with ⟨due, rfl⟩ | ⟨_, meaning⟩
        · exact absurd ⟨(finalizing_of_asked request).symm.trans (finalizing_of_due due), rfl⟩
            interrupted
        · cases meaning
          exact .inr (.inl ⟨calm, .concluded (.ended (.value _)), rfl⟩)

/-- A region that has not come to its end has not been left. -/
theorem InRegion.not_reaches (h : before.InRegion effect own saved stack) :
    ¬before.place.Reaches stack exit := by
  intro reaches
  cases h with
  | before => cases reaches
  | inside above => exact reaches.not_above_fold above
  | waiting waiting => exact waiting.not_reaches (.inl rfl) reaches
  | restoring place =>
    rw [place] at reaches
    cases reaches

/-! ### Stretches -/

/-- What has become of the status of a region, and whether putting it back was missed. -/
inductive Restored (effect : Node σ) (own saved : InterruptStatus) (stack : List (Frame σ))
    (strands : Nat → Strand σ) (first now : Nat) : Prop where
  | pending (region : (strands now).InRegion effect own saved stack)
      (none : ∀ n, first ≤ n → n < now → ¬Skips saved stack (strands n) (strands (n + 1)))
  | done (leaving : (strands now).Leaving stack) (same : (strands now).holding.flags.status = saved)
      (none : ∀ n, first ≤ n → n < now → ¬Skips saved stack (strands n) (strands (n + 1)))
  | missed {lost : Nat} (leaving : (strands now).Leaving stack)
      (other : (strands now).holding.flags.status = .interruptible) (low : first ≤ lost)
      (high : lost < now) (skips : Skips saved stack (strands lost) (strands (lost + 1)))

theorem Restored.succ {strands : Nat → Strand σ} {first now : Nat}
    (h : Restored effect own saved stack strands first now) (le : first ≤ now)
    (moves : (strands now).Moves (strands (now + 1)))
    (inside : ∀ exit, ¬(strands now).place.Reaches stack exit) :
    Restored effect own saved stack strands first (now + 1) := by
  cases h with
  | pending region none =>
    rcases region.moves moves with ⟨kept, region'⟩ | ⟨kept, leaving, same⟩ |
      ⟨skips, leaving, other⟩
    · exact .pending region' (forall_lt_succ none kept)
    · exact .done leaving same (forall_lt_succ none kept)
    · exact .missed leaving other le (Nat.lt_succ_self now) skips
  | done leaving same none =>
    exact .done (leaving.moves moves inside) ((leaving.status moves).trans same)
      (forall_lt_succ none leaving.not_skips)
  | missed leaving other low high skips =>
    exact .missed (leaving.moves moves inside) ((leaving.status moves).trans other) low
      (Nat.lt_succ_of_lt high) skips

theorem Stretch.restored {strands : Nat → Strand σ} {first last : Nat}
    (stretch : Stretch strands first last) (le : first ≤ last)
    (region : (strands first).InRegion effect own saved stack)
    (inside : ∀ n, first ≤ n → n < last → ∀ exit, ¬(strands n).place.Reaches stack exit) :
    Restored effect own saved stack strands first last := by
  induction last, le using Nat.le_induction with
  | base => exact .pending region fun n low high => absurd low (Nat.not_le_of_gt high)
  | succ last le ih =>
    have restored := ih (stretch.mono le_rfl (Nat.le_succ last)) fun n low high =>
      inside n low (Nat.lt_succ_of_lt high)
    exact restored.succ le (stretch last le (Nat.lt_succ_self last))
      (inside last le (Nat.lt_succ_self last))

/-- A region is left with the status that it was entered with, exactly if no interruption takes
effect where that status is about to be put back, or it is the interruptible one. -/
theorem Stretch.status_iff {strands : Nat → Strand σ} {first last : Nat} {holding : Holding}
    {calling : Bool}
    (begins : strands first = ⟨.active (.node (.withStatus effect own)) stack, holding, calling⟩)
    (stretch : Stretch strands first last) (leaves : Leaves strands first last stack exit) :
    (strands last).holding.flags.status = holding.flags.status ↔
      holding.flags.status = .interruptible ∨ ∀ n, first ≤ n → n < last →
        ¬Skips holding.flags.status stack (strands n) (strands (n + 1)) := by
  have region : (strands first).InRegion effect own holding.flags.status stack := by
    rw [begins]
    exact .before rfl
  cases stretch.restored leaves.le region leaves.inside with
  | pending region' => exact absurd leaves.reaches region'.not_reaches
  | done _ same none => exact iff_of_true same (.inr none)
  | missed _ other low high skips =>
    rw [other]
    constructor
    · exact fun same => .inl same.symm
    · rintro (same | none)
      · exact same.symm
      · exact absurd skips (none _ low high)

end Strand

end Fibers
