import Fibers.Proofs.Strand.Path

/-!
# What an effect means is what a fiber comes to

## Main result

`Strand.exists_bound_of_evaluates`: if an effect evaluates to an outcome, then a fiber that works on
it with the same inputs has come down to the frames under it with that outcome after a number of
steps that does not depend on how it is scheduled.

## Proof strategy

Induction on the evaluation. `Settles` says of a path that it has come down with the outcome or has
not made a bounded number of steps; each rule of evaluation has the bounds of its parts to add up.
-/

namespace Fibers.Strand

variable {σ : Type} {stack frames : List (Frame σ)} {before after : Strand σ}
  {given inputs inputs' : List (Input σ)} {count bound bound' : Nat} {outcome exit : Exit Erased}
  {environments : List Erased} {holding : Holding} {calling : Bool}

/-! ### Inputs -/

/-- What a path has been given agrees with the inputs of an evaluation as far as both go, and no
request was refused. -/
structure Agree (given inputs : List (Input σ)) : Prop where
  granted : ∀ payload, Input.refused payload ∉ given
  granted' : ∀ payload, Input.refused payload ∉ inputs
  comparable : given <+: inputs ∨ inputs <+: given

theorem Agree.left {given' : List (Input σ)} (h : Agree (given ++ given') (inputs ++ inputs')) :
    Agree given inputs := by
  refine ⟨fun payload mem => h.granted payload (List.mem_append_left _ mem),
    fun payload mem => h.granted' payload (List.mem_append_left _ mem), ?_⟩
  rcases h.comparable with shorter | shorter
  · exact List.prefix_or_prefix_of_prefix ((List.prefix_append _ _).trans shorter)
      (List.prefix_append _ _)
  · exact (List.prefix_or_prefix_of_prefix ((List.prefix_append _ _).trans shorter)
      (List.prefix_append _ _)).symm

theorem Agree.right (h : Agree (inputs ++ given) (inputs ++ inputs')) : Agree given inputs' :=
  ⟨fun payload mem => h.granted payload (List.mem_append_right _ mem),
    fun payload mem => h.granted' payload (List.mem_append_right _ mem),
    h.comparable.imp (List.prefix_append_right_inj _).mp (List.prefix_append_right_inj _).mp⟩

theorem Agree.cons {first first' : Input σ} (h : Agree (first :: given) (first' :: inputs)) :
    first = first' ∧ Agree given inputs := by
  have same : first = first' := by
    rcases h.comparable with shorter | shorter
    · exact (List.cons_prefix_cons.mp shorter).1
    · exact (List.cons_prefix_cons.mp shorter).1.symm
  subst same
  have h' : Agree ([first] ++ given) ([first] ++ inputs) := h
  exact ⟨rfl, h'.right⟩

/-! ### Bounded paths -/

/-- A path has come down to its stack with an outcome and has taken all inputs, or it has not made
the given number of steps. -/
def Settles (stack : List (Frame σ)) (environments : List Erased) (exit : Exit Erased)
    (inputs : List (Input σ)) (bound : Nat) (given : List (Input σ)) (count : Nat)
    (after : Strand σ) : Prop :=
  (after.place.Reaches stack exit ∧ given = inputs ∧ after.holding.environments = environments ∧
      count ≤ bound) ∨
    (∀ exit, ¬after.place.Reaches stack exit) ∧ count < bound

theorem Settles.mono (h : Settles stack environments exit inputs bound given count after)
    (le : bound ≤ bound') : Settles stack environments exit inputs bound' given count after := by
  rcases h with ⟨reaches, same, kept, small⟩ | ⟨inside, small⟩
  · exact .inl ⟨reaches, same, kept, small.trans le⟩
  · exact .inr ⟨inside, small.trans_le le⟩

/-- Paths that start with an effect settle on its outcome. -/
def Completes (environments : List Erased) (effect : Node σ) (inputs : List (Input σ))
    (exit : Exit Erased) (bound : Nat) : Prop :=
  ∀ {stack : List (Frame σ)} {holding : Holding} {calling : Bool} {given : List (Input σ)}
    {count : Nat} {after : Strand σ}, holding.environments = environments → Agree given inputs →
    Path Anyhow stack ⟨.active (.node effect) stack, holding, calling⟩ given count after →
    Settles stack environments exit inputs bound given count after

end Fibers.Strand
