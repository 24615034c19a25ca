import Fibers.Proofs.Strand.Path

/-!
# Silent steps

Most steps of a fiber depend on nobody else: nothing reaches it from outside, and nothing of it is
seen there.

## Main results

`Strand.Fed.leads`: a fiber that silent steps lead somewhere gets there, or is still on its way.
-/

namespace Fibers

variable {σ : Type}

namespace Strand

/-- What a fiber does next, if that depends on nobody else. -/
inductive Silent : Strand σ → Strand σ → Prop where
  | succeed (value : Erased) (stack : List (Frame σ)) (holding : Holding) (calling : Bool) :
      Silent ⟨.active (.node (.succeed value)) stack, holding, calling⟩
        ⟨.active (.value value) stack, holding, false⟩
  | flatMap (effect : Node σ) (continuation : Continuation σ) (stack : List (Frame σ))
      (holding : Holding) (calling : Bool) :
      Silent ⟨.active (.node (.flatMap effect continuation)) stack, holding, calling⟩
        ⟨.active (.node effect) (.apply continuation :: stack), holding, false⟩
  | fail (code : Code σ Cause) (stack : List (Frame σ)) (holding : Holding) (calling : Bool) :
      Silent ⟨.active (.node (.fail code)) stack, holding, calling⟩
        ⟨.active (.raising code) stack, holding, false⟩
  | value (value : Erased) (frame : Frame σ) (stack : List (Frame σ)) (holding : Holding)
      (calling : Bool) :
      Silent ⟨.active (.value value) (frame :: stack), holding, calling⟩
        ⟨.active (.building (frame.resume value)) stack, holding, false⟩
  | built (next : Node σ) (stack : List (Frame σ)) (holding : Holding) :
      Silent ⟨.active (.building (.done next)) stack, holding, false⟩
        ⟨.active (.node next) stack, holding, false⟩
  | raised (cause : Cause) (stack : List (Frame σ)) (holding : Holding) :
      Silent ⟨.active (.raising (.done cause)) stack, holding, false⟩
        ⟨.active (.cause cause) stack, holding, false⟩

/-- Silent steps lead a fiber from one point to another. -/
def Leads : Strand σ → Strand σ → Prop := Relation.ReflTransGen Silent

variable {before after next target : Strand σ} {input : Option (Input σ)}

theorem Step.of_silent (step : before.Step input after)
    (undue : before.holding.flags.shouldInterrupt = false) (silent : before.Silent next) :
    after = next := by
  cases silent with
  | succeed | flatMap | fail =>
    obtain ⟨_, meaning⟩ := step.of_polling.resolve_left fun due => by cases undue.symm.trans due.1
    cases meaning
    rfl
  | value value frame stack =>
    have reaches : Place.Reaches (frame :: stack) (.active (.value value) (frame :: stack))
        (.success value) := .value value
    cases frame with
    | apply continuation => exact (step.of_reaches_apply reaches).2
    | fold handler => exact (step.of_reaches_fold reaches).2
  | built => exact step.of_built.2
  | raised => exact step.of_raised.2

/-- Who is about to take a silent step has not come down to the bottom, and does not wait. -/
theorem Silent.busy (silent : before.Silent next) :
    (∃ focus stack, before.place = .active focus stack) ∧
      ∀ exit, ¬before.place.Reaches [] exit := by
  cases silent <;> exact ⟨⟨_, _, rfl⟩, fun _ => nofun⟩

/-- Only nodes change what the heap keeps for a fiber. -/
theorem Step.holding_eq (step : before.Step input after)
    (busy : ∀ current stack, before.place ≠ .active (.node current) stack) :
    after.holding = before.holding := by
  cases step with
  | interrupted | interpreted => exact absurd rfl (busy _ _)
  | delivered | handled | ended | answered | panicked | refused | met | parked | resumed => rfl

theorem Fed.holding_eq {strands : Nat → Strand σ} {feed : Nat → Option (Option (Input σ))}
    {first last n : Nat} (fed : Fed strands feed first last) (low : first ≤ n) (high : n < last)
    (busy : ∀ current stack, (strands n).place ≠ .active (.node current) stack) :
    (strands (n + 1)).holding = (strands n).holding := by
  have now := fed n low high
  cases given : feed n with
  | none =>
    rw [given] at now
    rw [now]
  | some input =>
    rw [given] at now
    exact now.holding_eq busy

/-- A fiber rests through a stretch. -/
def Stays (strands : Nat → Strand σ) (first last : Nat) : Prop :=
  ∀ n, first ≤ n → n ≤ last → strands n = strands first

theorem Stays.succ {strands : Nat → Strand σ} {first last : Nat} (rests : Stays strands first last)
    (le : first ≤ last) (next : strands (last + 1) = strands last) :
    Stays strands first (last + 1) := by
  intro n low high
  rcases Nat.le_succ_iff.mp high with old | rfl
  · exact rests n low old
  · exact next.trans (rests last le le_rfl)

/-- A fiber rests up to some moment, or takes a step before. -/
theorem Fed.rests_or_steps {strands : Nat → Strand σ} {feed : Nat → Option (Option (Input σ))}
    {first last n : Nat} (fed : Fed strands feed first last) (low : first ≤ n) (high : n ≤ last) :
    Stays strands n last ∨ ∃ m input, n ≤ m ∧ m < last ∧ Stays strands n m ∧
      (strands n).Step input (strands (m + 1)) := by
  induction last, high using Nat.le_induction with
  | base => exact .inl fun m low' high' => congrArg strands (le_antisymm high' low')
  | succ last later ih =>
    rcases ih fun n low' high' => fed n low' (Nat.lt_succ_of_lt high') with
      rests | ⟨m, input, low', high', rests, step⟩
    · have now := fed last (low.trans later) (Nat.lt_succ_self last)
      cases given : feed last with
      | none =>
        rw [given] at now
        exact .inl (rests.succ later now)
      | some input =>
        rw [given] at now
        exact .inr ⟨last, input, later, Nat.lt_succ_self last, rests,
          rests last later le_rfl ▸ now⟩
    · exact .inr ⟨m, input, low', Nat.lt_succ_of_lt high', rests, step⟩

/-- A fiber takes no steps in a stretch but silent ones. -/
def Quiet (strands : Nat → Strand σ) (first last : Nat) : Prop :=
  ∀ n, first ≤ n → n < last →
    strands (n + 1) = strands n ∨ (strands n).Silent (strands (n + 1))

theorem Quiet.succ {strands : Nat → Strand σ} {first last : Nat} (quiet : Quiet strands first last)
    (next : strands (last + 1) = strands last ∨ (strands last).Silent (strands (last + 1))) :
    Quiet strands first (last + 1) := by
  intro n low high
  rcases Nat.lt_succ_iff_lt_or_eq.mp high with old | rfl
  · exact quiet n low old
  · exact next

theorem Stays.quiet {strands : Nat → Strand σ} {first last : Nat}
    (rests : Stays strands first last) : Quiet strands first last := by
  intro n low high
  exact .inl ((rests (n + 1) (Nat.le_succ_of_le low) high).trans (rests n low high.le).symm)

theorem Quiet.trans {strands : Nat → Strand σ} {first mid last : Nat}
    (quiet : Quiet strands first mid) (later : Quiet strands mid last) :
    Quiet strands first last := by
  intro n low high
  rcases Nat.lt_or_ge n mid with before | after
  · exact quiet n low before
  · exact later n after high

/-- A fiber that silent steps of some kind lead somewhere takes no others before it gets there, and
if it has not got there, it is about to take the next of them. -/
theorem Fed.leads_along {strands : Nat → Strand σ} {feed : Nat → Option (Option (Input σ))}
    {first last n : Nat} {kind : Strand σ → Strand σ → Prop} (fed : Fed strands feed first last)
    (undue : ∀ n, first ≤ n → n ≤ last → (strands n).holding.flags.shouldInterrupt = false)
    (low : first ≤ n) (high : n ≤ last)
    (silent : ∀ {before after}, kind before after → before.Silent after)
    (leads : Relation.ReflTransGen kind (strands n) target) :
    (∃ m, n ≤ m ∧ m ≤ last ∧ strands m = target ∧ Quiet strands n m) ∨
      Quiet strands n last ∧ ∃ next, kind (strands last) next := by
  -- What is still ahead of the fiber is part of what is carried from one moment to the next.
  suffices way : (∃ m, n ≤ m ∧ m ≤ last ∧ strands m = target ∧ Quiet strands n m) ∨
      Quiet strands n last ∧
        ∃ next, kind (strands last) next ∧ Relation.ReflTransGen kind next target by
    refine way.imp_right ?_
    rintro ⟨quiet, next, goes, _⟩
    exact ⟨quiet, next, goes⟩
  induction last, high using Nat.le_induction with
  | base =>
    have still : Quiet strands n n := fun k low' high' => absurd low' (Nat.not_le.mpr high')
    exact leads.cases_head.imp (fun same => ⟨n, le_rfl, le_rfl, same, still⟩) fun way =>
      ⟨still, way⟩
  | succ last later ih =>
    rcases ih (fun k low' high' => fed k low' (Nat.lt_succ_of_lt high'))
        (fun k low' high' => undue k low' (Nat.le_succ_of_le high')) with
      ⟨m, low', high', same, quiet⟩ | ⟨quiet, next, goes, rest⟩
    · exact .inl ⟨m, low', Nat.le_succ_of_le high', same, quiet⟩
    · have now := fed last (low.trans later) (Nat.lt_succ_self last)
      cases given : feed last with
      | none =>
        rw [given] at now
        exact .inr ⟨quiet.succ (.inl now), next, now ▸ goes, rest⟩
      | some input =>
        rw [given] at now
        have moved := now.of_silent (undue last (low.trans later) last.le_succ) (silent goes)
        have quiet' := quiet.succ (.inr (moved ▸ silent goes))
        rw [← moved] at rest
        exact rest.cases_head.imp
          (fun same => ⟨last + 1, Nat.le_succ_of_le later, le_rfl, same, quiet'⟩) fun way =>
            ⟨quiet', way⟩

/-- A fiber that silent steps lead somewhere gets there, or is about to take the next of them. -/
theorem Fed.leads {strands : Nat → Strand σ} {feed : Nat → Option (Option (Input σ))}
    {first last n : Nat} (fed : Fed strands feed first last)
    (undue : ∀ n, first ≤ n → n ≤ last → (strands n).holding.flags.shouldInterrupt = false)
    (low : first ≤ n) (high : n ≤ last) (leads : (strands n).Leads target) :
    (∃ m, n ≤ m ∧ m ≤ last ∧ strands m = target) ∨ ∃ next, (strands last).Silent next := by
  refine (fed.leads_along undue low high id leads).imp ?_ And.right
  rintro ⟨m, low', high', same, _⟩
  exact ⟨m, low', high', same⟩

/-! ### Silent steps above a stack -/

variable {stack : List (Frame σ)} {exit : Exit Erased}

/-- Silent steps lead a fiber from one point to another, and it does not come down to a stack before
it gets there. -/
def LeadsAbove (stack : List (Frame σ)) : Strand σ → Strand σ → Prop :=
  Relation.ReflTransGen fun before after =>
    before.Silent after ∧ ∀ exit, ¬before.place.Reaches stack exit

theorem LeadsAbove.leads (leads : LeadsAbove stack before after) : before.Leads after :=
  Relation.ReflTransGen.mono (fun _ _ => And.left) _ _ leads

/-- A silent step after which a fiber is above a stack does not begin at the stack. -/
theorem Silent.above (silent : before.Silent after) (above : stack <:+ after.place.stack) :
    LeadsAbove stack before after := by
  refine .single ⟨silent, fun exit reaches => ?_⟩
  cases silent with
  | value value frame frames =>
    have longer := above.length_le
    generalize whole : Place.active (.value value) (frame :: frames) = place at reaches
    cases reaches <;> cases whole
    exact absurd longer (Nat.not_succ_le_self _)
  | succeed | flatMap | fail | built | raised => cases reaches

/-- A fiber that silent steps lead somewhere above a stack gets there, or it is still on its way and
about to take the next of them. -/
theorem Fed.leads_above_or_lags {strands : Nat → Strand σ} {feed : Nat → Option (Option (Input σ))}
    {first last n : Nat} (fed : Fed strands feed first last)
    (undue : ∀ n, first ≤ n → n ≤ last → (strands n).holding.flags.shouldInterrupt = false)
    (low : first ≤ n) (high : n ≤ last) (leads : LeadsAbove stack (strands n) target) :
    (∃ m, n ≤ m ∧ m ≤ last ∧ strands m = target ∧ Quiet strands n m) ∨
      Quiet strands n last ∧ (∃ next, (strands last).Silent next) ∧
        ∀ exit, ¬(strands last).place.Reaches stack exit := by
  refine (fed.leads_along undue low high And.left leads).imp_right ?_
  rintro ⟨quiet, next, silent, inside⟩
  exact ⟨quiet, ⟨next, silent⟩, inside⟩

/-- A fiber that comes down to a stack in the end gets where silent steps lead it before. -/
theorem Fed.leads_above {strands : Nat → Strand σ} {feed : Nat → Option (Option (Input σ))}
    {first last n : Nat} (fed : Fed strands feed first last)
    (undue : ∀ n, first ≤ n → n ≤ last → (strands n).holding.flags.shouldInterrupt = false)
    (reaches : (strands last).place.Reaches stack exit)
    (low : first ≤ n) (high : n ≤ last) (leads : LeadsAbove stack (strands n) target) :
    ∃ m, n ≤ m ∧ m ≤ last ∧ strands m = target ∧ Quiet strands n m :=
  (fed.leads_above_or_lags undue low high leads).resolve_right fun lags => lags.2.2 exit reaches

end Strand

end Fibers
