import Fibers.Proofs.Effect.Pure
import Fibers.Proofs.Strand.ForkJoin

/-!
# Two effects side by side

`zipPar` runs one effect on a new fiber and the other one by itself, `zip` runs one after the other.
Both pair the values; they differ in whose cause they raise if both effects fail.

## Main results

`Exit.beside_eq_inTurn`: what they make of two exits is the same, if one of these is a value.
`Means.of_zip`: what `zip` means. `Strand.leadsAbove_zipPar`, `Strand.leadsAbove_forked`,
`Strand.leadsAbove_beside` and `Strand.leadsAbove_told`: the silent steps of `zipPar` between the
fork, the other effect and the join.
-/

namespace Fibers

variable {σ : Type} {A B C : Ty}

namespace Exit

/-- A pair of values, or the cause of the left side, or else that of the right one. -/
def inTurn (left : Exit A.Carrier) (right : Exit B.Carrier) : Exit (Ty.pair A B).Carrier :=
  left.bind fun a => right.map fun b => (a, b)

/-- A pair of values, or the cause of the right side, or else that of the left one. -/
def beside (left : Exit A.Carrier) (right : Exit B.Carrier) : Exit (Ty.pair A B).Carrier :=
  right.bind fun b => left.map fun a => (a, b)

/-- The order matters only if both sides fail. -/
theorem beside_eq_inTurn {left : Exit A.Carrier} {right : Exit B.Carrier}
    (h : left.isSuccess = true ∨ right.isSuccess = true) :
    left.beside right = left.inTurn right := by
  cases left with
  | success a => cases right <;> rfl
  | failure cause =>
    cases right with
    | success b => rfl
    | failure other => rcases h with h | h <;> cases h

end Exit

/-! ### What sequences mean -/

section Means

variable {given : Given σ} {environments : List Erased} {exit outcome : Exit Erased}

/-- A sequence stops at a cause, or goes on with a value. -/
theorem Means.of_flatMap {effect : Effect σ A} {f : A.Carrier → Code σ (Effect σ B)}
    {g : A.Carrier → Effect σ B} (builds : ∀ a, f a = .done (g a))
    (h : Means given environments (effect.flatMap f).node exit)
    (means : Means given environments effect.node outcome) :
    (∃ cause, outcome.recover A = .failure cause ∧ exit = .failure cause) ∨
      ∃ a, outcome.recover A = .success a ∧ Means given environments (g a).node exit := by
  cases h with
  | flatMapSkipped other =>
    obtain rfl := means.unique other
    exact .inl ⟨_, rfl, rfl⟩
  | @flatMap _ _ _ value _ _ other certain means' =>
    obtain rfl := means.unique other
    simp only [Exit.recover, Exit.bind]
    cases recovered : value.recover A with
    | error cause =>
      rw [Continuation.applyTo, Effect.typed, recovered] at certain
      obtain rfl := certain.unique (.done _)
      cases means' with
      | fail raised =>
        obtain rfl := raised.unique (.done _)
        exact .inl ⟨cause, rfl, rfl⟩
    | ok a =>
      obtain rfl := (Erased.recover_eq_ok_iff _ _ _).mp recovered
      rw [Continuation.applyTo, Effect.typed_mk, builds] at certain
      obtain rfl := certain.unique (.done _)
      exact .inr ⟨a, rfl, means'⟩

/-- A known value means itself. -/
theorem Means.of_succeedNow {value : A.Carrier}
    (h : Means given environments (Effect.succeedNow value : Effect σ A).node exit) :
    exit = .success ⟨A, value⟩ := by
  cases h
  rfl

/-- `zip` means a pair of values, or the cause of the first effect that fails. -/
theorem Means.of_zip {left : Effect σ A} {right : Effect σ B} {own other : Exit Erased}
    (h : Means given environments (left.zip right).node exit)
    (first : Means given environments left.node own)
    (second : Means given environments right.node other) :
    exit = ((own.recover A).inTurn (other.recover B)).erase := by
  rcases h.of_flatMap (fun _ => rfl) first with ⟨cause, failed, rfl⟩ | ⟨a, found, means⟩
  · rw [failed]
    rfl
  · rcases means.of_flatMap (fun _ => rfl) second with ⟨cause, failed, rfl⟩ | ⟨b, found', means⟩
    · rw [found, failed]
      rfl
    · rw [found, found', means.of_succeedNow]
      rfl

end Means

namespace Strand

open Effect

variable {stack : List (Frame σ)} {holding : Holding} {calling : Bool}

/-! ### Values of another type -/

/-- A value of another type is a defect. -/
theorem leadsAbove_mismatch {f : A.Carrier → Code σ (Effect σ B)} {value : Erased} {cause : Cause}
    (mismatch : value.recover A = .error cause) {frames : List (Frame σ)} (above : stack <:+ frames)
    (holding : Holding) (calling : Bool) :
    LeadsAbove stack ⟨.active (.value value) (.using f :: frames), holding, calling⟩
      ⟨.active (.cause cause) frames, holding, false⟩ := by
  have built : (Frame.using f).resume value = .done (.failNow cause) := by
    rw [Frame.using, Frame.resume, Continuation.applyTo, typed, mismatch]
  refine (Silent.above (.value _ _ _ _ _) above).trans ?_
  rw [built]
  exact (Silent.above (.built _ _ _) above).trans <|
    (Silent.above (.fail _ _ _ _) above).trans (Silent.above (.raised _ _ _) above)

/-! ### The steps of `zipPar` -/

variable {left : Effect σ A} {right : Effect σ B}

/-- What is left to do once the other effect has its value. -/
def pairing (child : FiberId) (A B : Ty) : B.Carrier → Code σ (Effect σ (.pair A B)) := fun b =>
  .done ((join (⟨child⟩ : Fiber A)).map fun a => .done (a, b))

/-- What is left to do once the child is there. -/
def besides (A : Ty) (right : Effect σ B) : (Ty.fiber A).Carrier → Code σ (Effect σ (.pair A B)) :=
  fun child => .done (right.flatMap (pairing child A B))

/-- The frames of the fork. -/
def parting (A : Ty) (right : Effect σ B) (stack : List (Frame σ)) : List (Frame σ) :=
  .using (fun id : Ty.context.Carrier => .done (succeedNow id : Effect σ (.fiber A))) ::
    .using (besides A right) :: stack

/-- The frames of the join. -/
def meeting (A : Ty) (b : B.Carrier) (stack : List (Frame σ)) : List (Frame σ) :=
  .using (fun exit : (Ty.exit A).Carrier => .done (fromExit exit : Effect σ A)) ::
    .using (fun a : A.Carrier => .done (succeedNow (a, b) : Effect σ (.pair A B))) :: stack

/-- The left effect is forked first. -/
theorem leadsAbove_zipPar (left : Effect σ A) (right : Effect σ B) (stack : List (Frame σ))
    (holding : Holding) (calling : Bool) :
    LeadsAbove stack ⟨.active (.node (left.zipPar right).node) stack, holding, calling⟩
      ⟨.active (.node (.fork left.node)) (parting A right stack), holding, false⟩ :=
  (leadsAbove_flatMap List.suffix_rfl _ _ _ _).trans
    (leadsAbove_flatMap (List.suffix_cons _ _) _ _ _ _)

/-- Then the right effect begins. -/
theorem leadsAbove_forked (child : FiberId) (right : Effect σ B) (stack : List (Frame σ))
    (holding : Holding) (calling : Bool) :
    LeadsAbove stack ⟨.active (.value ⟨.context, child⟩) (parting A right stack), holding, calling⟩
      ⟨.active (.node right.node) (.using (pairing child A B) :: stack), holding, false⟩ := by
  have known : LeadsAbove stack
      ⟨.active (.value ⟨.context, child⟩) (parting A right stack), holding, calling⟩
      ⟨.active (.node (succeedNow child : Effect σ (.fiber A)).node)
        (.using (besides A right) :: stack), holding, false⟩ :=
    leadsAbove_using rfl (List.suffix_cons _ _) _ _
  have handle : LeadsAbove stack
      ⟨.active (.node (succeedNow child : Effect σ (.fiber A)).node)
        (.using (besides A right) :: stack), holding, false⟩
      ⟨.active (.value ⟨.fiber A, child⟩) (.using (besides A right) :: stack), holding, false⟩ :=
    Silent.above (.succeed _ _ _ _) (List.suffix_cons _ _)
  have built : LeadsAbove stack
      ⟨.active (.value ⟨.fiber A, child⟩) (.using (besides A right) :: stack), holding, false⟩
      ⟨.active (.node (right.flatMap (pairing child A B)).node) stack, holding, false⟩ :=
    leadsAbove_using rfl List.suffix_rfl _ _
  exact ((known.trans handle).trans built).trans (leadsAbove_flatMap List.suffix_rfl _ _ _ _)

/-- With the value of the right effect, the child is joined. -/
theorem leadsAbove_beside (child : FiberId) (b : B.Carrier) (stack : List (Frame σ))
    (holding : Holding) (calling : Bool) :
    LeadsAbove stack
      ⟨.active (.value ⟨B, b⟩) (.using (pairing child A B) :: stack), holding, calling⟩
      ⟨.active (.node (awaitExit ⟨child⟩ : Effect σ (.exit A)).node) (meeting A b stack), holding,
        false⟩ :=
  (leadsAbove_using rfl List.suffix_rfl _ _).trans <|
    (leadsAbove_flatMap List.suffix_rfl _ _ _ _).trans
      (leadsAbove_flatMap (List.suffix_cons _ _) _ _ _ _)

/-- With the exit of the child, there is the pair or a cause. -/
theorem leadsAbove_told (own : Exit A.Carrier) (b : B.Carrier) (stack : List (Frame σ))
    (holding : Holding) (calling : Bool) :
    ∃ place, LeadsAbove stack
        ⟨.active (.value ⟨.exit A, own⟩) (meeting A b stack), holding, calling⟩
        ⟨place, holding, false⟩ ∧
      place.Reaches stack (own.beside (.success b : Exit B.Carrier)).erase := by
  have above : stack <:+ .using (fun a : A.Carrier =>
      .done (succeedNow (a, b) : Effect σ (.pair A B))) :: stack := List.suffix_cons _ _
  have known : LeadsAbove stack
      ⟨.active (.value ⟨.exit A, own⟩) (meeting A b stack), holding, calling⟩
      ⟨.active (.node (fromExit own : Effect σ A).node) (.using (fun a : A.Carrier =>
        .done (succeedNow (a, b) : Effect σ (.pair A B))) :: stack), holding, false⟩ :=
    leadsAbove_using rfl above _ _
  cases own with
  | success a =>
    exact ⟨_, known.trans <| (Silent.above (.succeed _ _ _ _) above).trans <|
      (leadsAbove_using rfl List.suffix_rfl _ _).trans
        (Silent.above (.succeed _ _ _ _) List.suffix_rfl), .value _⟩
  | failure cause =>
    exact ⟨_, known.trans <| (Silent.above (.fail _ _ _ _) above).trans
      (Silent.above (.raised _ _ _) above), .cause cause [_]⟩

end Strand

end Fibers
