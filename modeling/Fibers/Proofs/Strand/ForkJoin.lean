import Fibers.Effect.Basic
import Fibers.Proofs.Strand.Silence

/-!
# Forking and joining

An effect forks others, then joins their fibers in an order of its own, and goes on with all the
values. Between forks and joins its fiber takes silent steps only.

## Main results

`Effect.gather`: what the exits of the fibers make of the joins, in the order of the joins.
`Strand.leads_joinAll`, `Strand.leads_joined` and `Strand.leads_failed`: the way to a join, and from
the exit that it gives.
-/

namespace Fibers

variable {σ : Type} {A B : Ty}

namespace Effect

/-- Join fibers one after another, then go on with their values behind those given. -/
def joinAll (finish : List Erased → Effect σ B) :
    List ((A : Ty) × Fiber A) → List Erased → Effect σ B
  | [], values => finish values
  | ⟨A, fiber⟩ :: rest, values =>
    (join fiber).flatMap fun value => .done (joinAll finish rest (values ++ [⟨A, value⟩]))

/-- Fork effects one after another, then go on with their handles behind those given. -/
def forkAll (next : List ((A : Ty) × Fiber A) → Effect σ B) :
    List ((A : Ty) × Effect σ A) → List ((A : Ty) × Fiber A) → Effect σ B
  | [], fibers => next fibers
  | ⟨A, effect⟩ :: rest, fibers =>
    effect.fork.flatMap fun id => .done (forkAll next rest (fibers ++ [⟨A, ⟨id⟩⟩]))

/-- Fork effects, join their fibers in some order, and go on with the values in this order. -/
def forkJoin (effects : List ((A : Ty) × Effect σ A)) (order : List Nat)
    (finish : List Erased → Effect σ B) : Effect σ B :=
  forkAll (fun fibers => joinAll finish (order.filterMap (fibers[·]?)) []) effects []

/-- The values of some exits, or the cause of the first one that has none. -/
def gather : List (Ty × Exit Erased) → Except Cause (List Erased)
  | [] => .ok []
  | (type, exit) :: rest =>
    match exit.recover type with
    | .success value => (gather rest).map (⟨type, value⟩ :: ·)
    | .failure cause => .error cause

end Effect

/-- What a fiber does with a value of the right type. -/
def Frame.using (f : A.Carrier → Code σ (Effect σ B)) : Frame σ := .apply (.call (Effect.typed f))

namespace Strand

open Effect

variable {stack : List (Frame σ)} {holding : Holding}

theorem leadsAbove_flatMap {stack frames : List (Frame σ)} (above : stack <:+ frames)
    (effect : Effect σ A) (f : A.Carrier → Code σ (Effect σ B)) (holding : Holding)
    (calling : Bool) :
    LeadsAbove stack ⟨.active (.node (effect.flatMap f).node) frames, holding, calling⟩
      ⟨.active (.node effect.node) (.using f :: frames), holding, false⟩ :=
  Silent.above (.flatMap _ _ _ _ _) (above.trans (List.suffix_cons _ _))

/-- A value goes to a continuation that is a known effect. -/
theorem leadsAbove_using {f : A.Carrier → Code σ (Effect σ B)} {value : A.Carrier}
    {effect : Effect σ B} (builds : f value = .done effect) {stack frames : List (Frame σ)}
    (above : stack <:+ frames) (holding : Holding) (calling : Bool) :
    LeadsAbove stack ⟨.active (.value ⟨A, value⟩) (.using f :: frames), holding, calling⟩
      ⟨.active (.node effect.node) frames, holding, false⟩ := by
  have built : (Frame.using f).resume ⟨A, value⟩ = .done effect.node := by
    rw [Frame.using, Frame.resume, Continuation.applyTo, typed_mk, builds]
    rfl
  refine (Silent.above (.value _ _ _ _ _) above).trans ?_
  rw [built]
  exact Silent.above (.built _ _ _) above

theorem leads_flatMap (effect : Effect σ A) (f : A.Carrier → Code σ (Effect σ B))
    (stack : List (Frame σ)) (holding : Holding) (calling : Bool) :
    Leads ⟨.active (.node (effect.flatMap f).node) stack, holding, calling⟩
      ⟨.active (.node effect.node) (.using f :: stack), holding, false⟩ :=
  (leadsAbove_flatMap List.suffix_rfl effect f holding calling).leads

theorem leads_using {f : A.Carrier → Code σ (Effect σ B)} {value : A.Carrier} {effect : Effect σ B}
    (builds : f value = .done effect) (stack : List (Frame σ)) (holding : Holding)
    (calling : Bool) :
    Leads ⟨.active (.value ⟨A, value⟩) (.using f :: stack), holding, calling⟩
      ⟨.active (.node effect.node) stack, holding, false⟩ :=
  (leadsAbove_using builds List.suffix_rfl holding calling).leads

/-- The frames of a join that awaits its fiber. -/
def joining (finish : List Erased → Effect σ B) (A : Ty) (rest : List ((A : Ty) × Fiber A))
    (values : List Erased) (stack : List (Frame σ)) : List (Frame σ) :=
  .using (fun exit : (Ty.exit A).Carrier => .done (fromExit exit : Effect σ A)) ::
    .using (fun value : A.Carrier => .done (joinAll finish rest (values ++ [⟨A, value⟩]))) :: stack

variable {finish : List Erased → Effect σ B} {rest : List ((A : Ty) × Fiber A)}
  {values : List Erased}

/-- The next join awaits its fiber. -/
theorem leads_joinAll (fiber : Fiber A) (calling : Bool) :
    Leads ⟨.active (.node (joinAll finish (⟨A, fiber⟩ :: rest) values).node) stack, holding,
        calling⟩
      ⟨.active (.node (awaitExit fiber : Effect σ (.exit A)).node)
        (joining finish A rest values stack), holding, false⟩ :=
  (leads_flatMap _ _ _ _ _).trans (leads_flatMap _ _ _ _ _)

/-- A join that gets a value is followed by the next one. -/
theorem leads_joined (value : A.Carrier) (calling : Bool) :
    Leads ⟨.active (.value ⟨.exit A, .success value⟩) (joining finish A rest values stack),
        holding, calling⟩
      ⟨.active (.node (joinAll finish rest (values ++ [⟨A, value⟩])).node) stack, holding,
        false⟩ :=
  (leads_using rfl _ _ _).trans <| .head (.succeed _ _ _ _) (leads_using rfl _ _ _)

/-- A join that gets a cause raises it. -/
theorem leads_failed (cause : Cause) (calling : Bool) :
    ∃ continuation, Leads ⟨.active (.value ⟨.exit A, .failure cause⟩)
        (joining finish A rest values stack), holding, calling⟩
      ⟨.active (.cause cause) (.apply continuation :: stack), holding, false⟩ :=
  ⟨_, (leads_using rfl _ _ _).trans <| .head (.fail _ _ _ _) (.single (.raised _ _ _))⟩

variable {next : List ((A : Ty) × Fiber A) → Effect σ B} {effects : List ((A : Ty) × Effect σ A)}
  {fibers : List ((A : Ty) × Fiber A)}

/-- The frames of a fork. -/
def forking (next : List ((A : Ty) × Fiber A) → Effect σ B) (A : Ty)
    (effects : List ((A : Ty) × Effect σ A)) (fibers : List ((A : Ty) × Fiber A))
    (stack : List (Frame σ)) : List (Frame σ) :=
  .using (fun id : Ty.context.Carrier => .done (succeedNow id : Effect σ (.fiber A))) ::
    .using (fun id : (Ty.fiber A).Carrier =>
      .done (forkAll next effects (fibers ++ [⟨A, ⟨id⟩⟩]))) :: stack

/-- The next effect is forked. -/
theorem leads_forkAll (effect : Effect σ A) (calling : Bool) :
    Leads ⟨.active (.node (forkAll next (⟨A, effect⟩ :: effects) fibers).node) stack, holding,
        calling⟩
      ⟨.active (.node (.fork effect.node)) (forking next A effects fibers stack), holding,
        false⟩ :=
  (leads_flatMap _ _ _ _ _).trans (leads_flatMap _ _ _ _ _)

/-- A fork is followed by the next one. -/
theorem leads_forked (child : FiberId) (calling : Bool) :
    Leads ⟨.active (.value ⟨.context, child⟩) (forking next A effects fibers stack), holding,
        calling⟩
      ⟨.active (.node (forkAll next effects (fibers ++ [⟨A, ⟨child⟩⟩])).node) stack, holding,
        false⟩ :=
  (leads_using rfl _ _ _).trans <| .head (.succeed _ _ _ _) (leads_using rfl _ _ _)

end Strand

end Fibers
