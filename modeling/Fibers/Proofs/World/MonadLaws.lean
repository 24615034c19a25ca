import Fibers.Proofs.Machine.Rephrasing
import Fibers.Proofs.World.Bisimulation

/-!
# The laws of sequencing

A chain of effects may be bracketed in another way, and an effect that only hands on a value may be
left out of it.

## Main result

`World.monad_laws`: wherever a fiber stands before one side of a law, it might as well stand before
the other side.

## Proof strategy

Each law is a `Rephrasing`, whose sides are followed to where they do the same. The values that come
down to the frames of the second law are of the type of the effect because all user code is well
typed.
-/

namespace Fibers

variable {σ : Type}

theorem Ty.nonempty_carrier (A : Ty) : Nonempty A.Carrier := by
  induction A with
  | pair left right left_ih right_ih => exact ⟨left_ih.some, right_ih.some⟩
  | exit A ih => exact ⟨.success ih.some⟩
  | unit => exact ⟨()⟩
  | bool => exact ⟨true⟩
  | int | word => exact ⟨0⟩
  | text => exact ⟨""⟩
  | ints => exact ⟨[]⟩
  | datum => exact ⟨default⟩
  | fiber | context => exact ⟨⟨0⟩⟩

namespace Effect

open Machine (Rejoins)
open Rephrasing (rejoins_same rejoins_node rejoins_doomed rejoins_building)

variable {A B C : Ty} {id : FiberId} {value : Erased} {stack : List (Frame σ)}

/-! ### What the frames of a chain do -/

theorem leads_of_ok {a : A.Carrier} (found : value.recover A = .ok a)
    (f : A.Carrier → Code σ (Effect σ B)) :
    Place.Leads (.active (.value value) (.apply (.call (typed f)) :: stack))
      (.active (.building ((f a).bind fun effect => .done effect.node)) stack) := by
  have called : (Frame.apply (.call (typed f))).resume value =
      (f a).bind fun effect => .done effect.node := by
    simp only [Frame.resume, Continuation.applyTo, typed, found]
  exact .value (called ▸ .refl _)

theorem leads_of_error {cause : Cause} (found : value.recover A = .error cause)
    (f : A.Carrier → Code σ (Effect σ B)) :
    Place.Leads (.active (.value value) (.apply (.call (typed f)) :: stack))
      (.active (.cause cause) stack) := by
  have refused : (Frame.apply (.call (typed f))).resume value = .done (.failNow cause) := by
    simp only [Frame.resume, Continuation.applyTo, typed, found]
  exact .value (refused ▸ .built (.failNow (.refl _)))

/-- A frame that hands on the values of a type accepts no others. -/
theorem exists_of_accepts (accepts : Frame.Accepts
      (.apply (.call (typed fun a : A.Carrier => .done (succeedNow a))) : Frame σ) value) :
    ∃ a : A.Carrier, value = ⟨A, a⟩ := by
  obtain ⟨B, b⟩ := value
  by_cases same : B = A
  · subst same
    exact ⟨b, rfl⟩
  -- Such a frame tells the types apart: it hands on one value and refuses the other.
  obtain ⟨a⟩ := A.nonempty_carrier
  have known := typed_mk (fun a : A.Carrier => (.done (succeedNow a) : Code σ (Effect σ A))) a
  have refused : typed (fun a : A.Carrier => (.done (succeedNow a) : Code σ (Effect σ A))) ⟨B, b⟩ =
      .done (.failNow (.typeMismatch A)) := by
    rw [typed, Erased.recover_eq_error A ⟨B, b⟩ same]
  cases accepts with
  | apply accepts =>
    generalize typed (fun a : A.Carrier => (.done (succeedNow a) : Code σ (Effect σ A))) = build
      at accepts known refused
    cases accepts with
    | call f =>
      rw [typed, Erased.recover_eq_error B ⟨A, a⟩ (Ne.symm same)] at known
      cases known
    | ignore code => cases known.symm.trans refused

/-! ### The sides of the laws -/

/-- An effect that is known to succeed, and one that calls the next function at once. -/
def leftIdentity (a : A.Carrier) (f : A.Carrier → Code σ (Effect σ B)) (stack : List (Frame σ)) :
    Rephrasing σ where
  node := ((succeedNow a).flatMap f).node
  node' := (defer (f a)).node
  stack := stack
  low := stack
  low' := stack
  Result := Empty
  built := stack
  next := nofun
  next' := nofun

theorem lawful_leftIdentity (a : A.Carrier) (f : A.Carrier → Code σ (Effect σ B)) :
    (leftIdentity a f stack).Lawful id fun _ => True where
  dropped := rfl
  spared := rfl
  start := rejoins_same _ id (.flatMap (.succeed (leads_of_ok (Erased.recover_mk A a) f)))
    (.flatMap (.succeed (.value (.refl _))))
  value _ _ := rejoins_same _ id (.refl _) (.refl _)
  returns := nofun

/-- An effect after which its value is handed on, and the effect by itself. -/
def rightIdentity (m : Effect σ A) (stack : List (Frame σ)) : Rephrasing σ where
  node := (m.flatMap fun a => .done (succeedNow a)).node
  node' := m.node
  stack := stack
  low := .apply (.call (typed fun a : A.Carrier => .done (succeedNow a))) :: stack
  low' := stack
  Result := Empty
  built := stack
  next := nofun
  next' := nofun

theorem lawful_rightIdentity (m : Effect σ A) :
    (rightIdentity m stack).Lawful id
      (Frame.Accepts (.apply (.call (typed fun a : A.Carrier => .done (succeedNow a))) : Frame σ))
    where
  dropped := rfl
  spared := rfl
  start := rejoins_node _ id (.flatMap (.refl _)) (.refl _)
  value := by
    intro value accepted
    obtain ⟨a, rfl⟩ := exists_of_accepts accepted
    exact Rejoins.of_leads (leads_of_ok (Erased.recover_mk A a) _) (.refl _)
      (rejoins_same _ id (.built (.succeed (.refl _))) (.refl _))
  returns := nofun

/-- Two functions after an effect, one after the other or both at once. -/
def associativity (m : Effect σ A) (f : A.Carrier → Code σ (Effect σ B))
    (g : B.Carrier → Code σ (Effect σ C)) (stack : List (Frame σ)) : Rephrasing σ where
  node := ((m.flatMap f).flatMap g).node
  node' := (m.flatMap fun a => (f a).bind fun effect => .done (effect.flatMap g)).node
  stack := stack
  low := .apply (.call (typed f)) :: .apply (.call (typed g)) :: stack
  low' := .apply (.call (typed fun a => (f a).bind fun effect => .done (effect.flatMap g))) :: stack
  Result := Effect σ B
  built := .apply (.call (typed g)) :: stack
  next effect := .done effect.node
  next' effect := .done (effect.flatMap g).node

theorem lawful_associativity (m : Effect σ A) (f : A.Carrier → Code σ (Effect σ B))
    (g : B.Carrier → Code σ (Effect σ C)) :
    (associativity m f g stack).Lawful id fun _ => True := by
  have returns : (associativity m f g stack).Returns id := fun _ =>
    rejoins_same _ id (.built (.refl _)) (.built (.flatMap (.refl _)))
  refine ⟨rfl, rfl, ?_, fun value _ => ?_, returns⟩
  · exact rejoins_node _ id (.flatMap (.flatMap (.refl _))) (.flatMap (.refl _))
  · cases found : value.recover A with
    | error cause => exact rejoins_doomed rfl (leads_of_error found _) (leads_of_error found _)
    | ok a =>
      refine Rejoins.of_leads (leads_of_ok found _) (leads_of_ok found _) ?_
      rw [Action.bind_bind]
      exact rejoins_building returns (f a)

/-- Two transformations after an effect, one after the other or both at once. -/
def composition (m : Effect σ A) (h : A.Carrier → Code σ B.Carrier)
    (k : B.Carrier → Code σ C.Carrier) (stack : List (Frame σ)) : Rephrasing σ where
  node := ((m.map h).map k).node
  node' := (m.map fun a => (h a).bind k).node
  stack := stack
  low := .apply (.call (typed fun a => (h a).bind fun b => .done (succeedNow b))) ::
    .apply (.call (typed fun b => (k b).bind fun c => .done (succeedNow c))) :: stack
  low' := .apply (.call (typed fun a => ((h a).bind k).bind fun c => .done (succeedNow c))) :: stack
  Result := B.Carrier
  built := .apply (.call (typed fun b => (k b).bind fun c => .done (succeedNow c))) :: stack
  next b := .done (.succeed ⟨B, b⟩)
  next' b := (k b).bind fun c => .done (.succeed ⟨C, c⟩)

theorem lawful_composition (m : Effect σ A) (h : A.Carrier → Code σ B.Carrier)
    (k : B.Carrier → Code σ C.Carrier) :
    (composition m h k stack).Lawful id fun _ => True := by
  have returns : (composition m h k stack).Returns id := by
    intro b
    refine Rejoins.of_leads
      (.built (.succeed (leads_of_ok (Erased.recover_mk B b) _))) (.refl _) ?_
    rw [Action.bind_bind]
    exact rejoins_same _ id (.refl _) (.refl _)
  refine ⟨rfl, rfl, ?_, fun value _ => ?_, returns⟩
  · exact rejoins_node _ id (.flatMap (.flatMap (.refl _))) (.flatMap (.refl _))
  · cases found : value.recover A with
    | error cause => exact rejoins_doomed rfl (leads_of_error found _) (leads_of_error found _)
    | ok a =>
      refine Rejoins.of_leads (leads_of_ok found _) (leads_of_ok found _) ?_
      simp only [Action.bind_bind]
      exact rejoins_building returns (h a)

end Effect

/-- One fiber may stand before one effect or before another. -/
def Matching.swap (id : FiberId) (node node' : Node σ) (stack : List (Frame σ)) : Matching σ :=
  fun fiber place place' => place' = place ∨
    fiber = id ∧ place = .active (.node node) stack ∧ place' = .active (.node node') stack

namespace World

variable {id : FiberId} {accepts : Erased → Prop} {permits : Heap σ → Happening σ → Prop}
  {world world' : World σ}

theorem Twin.mono {twins twins' : Matching σ} (h : world.Twin twins world')
    (le : ∀ fiber place place', twins fiber place place' → twins' fiber place place') :
    world.Twin twins' world' :=
  ⟨h.heap.mono le, h.threads.imp fun _ _ twin => twin.mono le⟩

/-- If both sides rejoin, nobody can tell which of them is there, as long as something lasts by
which their frames accept the values that come down to them. -/
theorem indistinguishable_of_lawful {r : Rephrasing σ} (regime : Regime permits)
    (lawful : r.Lawful id accepts) (lasting : World σ → Prop)
    (lasts : ∀ {world next happening}, lasting world → permits world.heap happening →
      Happens world next happening → lasting next)
    (meets : ∀ {world}, lasting world → world.Meets)
    (accepted : ∀ {world}, lasting world → ∀ thread ∈ world.threads, ∀ value,
      thread.next? = some (.loop id (.value value) r.low) → accepts value)
    (good : lasting world) (twin : world.Twin (.swap id r.node r.node' r.stack) world') :
    Indistinguishable permits id world world' := by
  have begun : world.Twin (r.twins id) world' := by
    refine twin.mono fun fiber place place' same => same.imp_right ?_
    rintro ⟨rfl, rfl, rfl⟩
    exact ⟨rfl, .start⟩
  refine ⟨_, bisimulation_of_near regime (r.coherent_twins id) (r.only_twins id) lasts meets ?_,
    good, begun.near⟩
  intro world world' good thread known thread' known' focus stack focus' stack' next next' place
  refine lawful.rejoins place fun value valued low => accepted good thread known value ?_
  rw [next, valued, low]

/-- A rephrasing that is lawful whatever its frames accept holds in every machine. -/
theorem indistinguishable_of_reachable {r : Rephrasing σ} (lawful : r.Lawful id fun _ => True)
    (reached : world.Reachable) (twin : world.Twin (.swap id r.node r.node' r.stack) world') :
    Indistinguishable Unrestricted id world world' :=
  indistinguishable_of_lawful regime_unrestricted lawful Reachable
    (fun reached _ happens => reached.steps (.single happens.step)) Reachable.meets
    (fun _ _ _ _ _ => trivial) reached twin

/-- A step keeps a machine well typed, though more may have been handed out. -/
theorem TypedStep.exists_typed {custody : Custody σ} {types : Typing} {next : World σ}
    (step : world.TypedStep custody next) (reached : world.Reachable)
    (typed : world.Typed custody types) : ∃ types', next.Typed custody types' := by
  have run : TypedRun custody fun n => if n = 0 then world else next := by
    refine ⟨reached, fun n => ?_⟩
    cases n with
    | zero => exact step
    | succ n => exact .refl next
  obtain ⟨types', -, typed'⟩ := run.next (n := 0) typed
  exact ⟨types', typed'⟩

/-- A rephrasing that is lawful if a frame accepts what comes down to it holds in every machine that
is well typed. -/
theorem indistinguishable_of_typed {custody : Custody σ} {types : Typing} {r : Rephrasing σ}
    {frame : Frame σ} {rest : List (Frame σ)} (top : r.low = frame :: rest)
    (lawful : r.Lawful id frame.Accepts) (reached : world.Reachable)
    (typed : world.Typed custody types)
    (twin : world.Twin (.swap id r.node r.node' r.stack) world') :
    Indistinguishable (Happening.Typed custody) id world world' := by
  refine indistinguishable_of_lawful (regime_typed custody) lawful
    (fun world => world.Reachable ∧ ∃ types, world.Typed custody types) ?_
    (fun good => good.1.meets) ?_ ⟨reached, types, typed⟩ twin
  · rintro world next happening ⟨reached, types, typed⟩ permitted happens
    have step := typedStep_iff_happens.mpr ⟨happening, permitted, happens⟩
    exact ⟨reached.steps (.single happens.step), step.exists_typed reached typed⟩
  · rintro world ⟨_, types, typed⟩ thread known value next
    exact typed.safe.frames thread known id value frame rest (top ▸ next)

/-- Wherever a fiber stands before one side of a law, above whatever frames, it might as well stand
before the other side: as long as it is not interrupted, whatever happens to one machine happens to
the other, in the same order, and all the time they agree about everything but where this fiber
stands. So it ends with the same exits, has the same effect on the world, and makes the same fibers,
tasks and callbacks. The effects may be of any kind, and the functions may do anything, or panic; an
effect that is followed by nothing but its own value must be well typed, as all user code is. -/
theorem monad_laws :
    (∀ {A B : Ty} (a : A.Carrier) (f : A.Carrier → Code σ (Effect σ B)) {id : FiberId}
        {stack : List (Frame σ)} {world world' : World σ}, world.Reachable →
        world.Twin (.swap id ((Effect.succeedNow a).flatMap f).node (Effect.defer (f a)).node stack)
          world' →
        Indistinguishable Unrestricted id world world') ∧
      (∀ {A : Ty} (m : Effect σ A) {custody : Custody σ} {types : Typing} {id : FiberId}
        {stack : List (Frame σ)} {world world' : World σ}, world.Reachable →
        world.Typed custody types →
        world.Twin (.swap id (m.flatMap fun a => .done (Effect.succeedNow a)).node m.node stack)
          world' →
        Indistinguishable (Happening.Typed custody) id world world') ∧
      (∀ {A B C : Ty} (m : Effect σ A) (f : A.Carrier → Code σ (Effect σ B))
        (g : B.Carrier → Code σ (Effect σ C)) {id : FiberId} {stack : List (Frame σ)}
        {world world' : World σ}, world.Reachable →
        world.Twin (.swap id ((m.flatMap f).flatMap g).node
          (m.flatMap fun a => (f a).bind fun effect => .done (effect.flatMap g)).node stack)
          world' →
        Indistinguishable Unrestricted id world world') ∧
      ∀ {A B C : Ty} (m : Effect σ A) (h : A.Carrier → Code σ B.Carrier)
        (k : B.Carrier → Code σ C.Carrier) {id : FiberId} {stack : List (Frame σ)}
        {world world' : World σ}, world.Reachable →
        world.Twin (.swap id ((m.map h).map k).node (m.map fun a => (h a).bind k).node stack)
          world' →
        Indistinguishable Unrestricted id world world' := by
  refine ⟨?_, ?_, ?_, ?_⟩
  · exact fun a f _ _ _ _ reached twin =>
      indistinguishable_of_reachable (Effect.lawful_leftIdentity a f) reached twin
  · exact fun m _ _ _ _ _ _ reached typed twin =>
      indistinguishable_of_typed rfl (Effect.lawful_rightIdentity m) reached typed twin
  · exact fun m f g _ _ _ _ reached twin =>
      indistinguishable_of_reachable (Effect.lawful_associativity m f g) reached twin
  · exact fun m h k _ _ _ _ reached twin =>
      indistinguishable_of_reachable (Effect.lawful_composition m h k) reached twin

/-- Machines on which one effect or another has just been launched. -/
theorem twin_launched {A : Ty} (state : σ) (effect effect' : Effect σ A) :
    (trial state (launched effect) 1).Twin (.swap ⟨1⟩ effect.node effect'.node [])
      (trial state (launched effect') 1) := by
  have refl (id : FiberId) (place : Place σ) :
      Matching.swap ⟨1⟩ effect.node effect'.node [] id place place := .inl rfl
  have swapped : Matching.swap ⟨1⟩ effect.node effect'.node [] ⟨1⟩ (.active (.node effect.node) [])
      (.active (.node effect'.node) []) := .inr ⟨rfl, rfl, rfl⟩
  have threads : Thread.Twin (.swap ⟨1⟩ effect.node effect'.node [])
      (trial state (launched effect) 1).main (trial state (launched effect') 1).main :=
    ⟨rfl, rfl, rfl, .some .nil, .cons (.loop swapped) (.cons (.draining .none)
      (.cons (.program (.done ())) .nil)), rfl⟩
  exact ⟨Heap.twin_refl refl (trial state (launched effect) 1).heap, .cons threads .nil⟩

/-- A function that counts its calls. -/
def tally (n : Ty.int.Carrier) : Code Nat Ty.int.Carrier :=
  .modify (· + 1) fun _ => .done (n + 1 : Int64)

/-- An effect that calls it when it is run. -/
def tallied : Effect Nat .int := .succeed (tally 0)

/-- A function that calls it and goes on with an effect that calls it again. -/
def tallying (n : Ty.int.Carrier) : Code Nat (Effect Nat .int) :=
  (tally n).bind fun next => .done (.succeed (tally next))

/-- Both sides of every law as the only effect of a program. -/
theorem monad_laws_tallied :
    Indistinguishable Unrestricted ⟨1⟩
        (trial 0 (launched ((Effect.succeedNow 0).flatMap tallying)) 1)
        (trial 0 (launched (Effect.defer (tallying 0))) 1) ∧
      Indistinguishable (Happening.Typed ⟨fun _ _ => True, fun _ _ => trivial⟩) ⟨1⟩
        (trial 0 (launched (tallied.flatMap fun n => .done (Effect.succeedNow n))) 1)
        (trial 0 (launched tallied) 1) ∧
      Indistinguishable Unrestricted ⟨1⟩
        (trial 0 (launched ((tallied.flatMap tallying).flatMap tallying)) 1)
        (trial 0 (launched (tallied.flatMap fun n =>
          (tallying n).bind fun effect => .done (effect.flatMap tallying))) 1) ∧
      Indistinguishable Unrestricted ⟨1⟩
        (trial 0 (launched ((tallied.map tally).map tally)) 1)
        (trial 0 (launched (tallied.map fun n => (tally n).bind tally)) 1) := by
  have tallied_typed : tallied.Typed ⟨fun _ _ => True, fun _ _ => trivial⟩ {} :=
    Effect.typed_succeed (.modify (fun _ _ _ _ => trivial) (.done trivial))
  have chain_typed := tallied_typed.flatMap (f := fun n => .done (Effect.succeedNow n))
    fun _ _ _ holds => .done (Effect.typed_succeedNow holds)
  have starts : (launched (tallied.flatMap fun n => .done (Effect.succeedNow n))).Starts
      ⟨fun _ _ => True, fun _ _ => trivial⟩ Anything {} () .int _ :=
    .launch fun _ _ _ _ => .done trivial
  obtain ⟨types, typed⟩ := (typedStep_stepMain _).exists_typed (reachable_trial_zero 0 _)
    (typed_trial 0 trivial (starts.typed chain_typed))
  have reached {program : Code Nat Unit} : (trial 0 program 1).Reachable :=
    (run_trial 0 program).reachable 1
  obtain ⟨leftIdentity, rightIdentity, associativity, composition⟩ := @monad_laws Nat
  refine ⟨?_, ?_, ?_, ?_⟩
  · exact leftIdentity 0 tallying reached (twin_launched 0 _ _)
  · exact rightIdentity tallied reached typed (twin_launched 0 _ _)
  · exact associativity tallied tallying tallying reached (twin_launched 0 _ _)
  · exact composition tallied tally tally reached (twin_launched 0 _ _)

end World

end Fibers
