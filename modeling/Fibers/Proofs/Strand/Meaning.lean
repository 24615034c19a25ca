import Fibers.Proofs.Effect.Pure
import Fibers.Proofs.Strand.Soundness

/-!
# What a fiber comes to is what its pure effect means

## Main result

`Strand.means_of_path`: if the callbacks of a fiber receive what is given for them, the fiber comes
down from a pure effect with what the effect means, whatever else happens on its way.

## Proof strategy

As for the evaluation of effects in general, by strong induction on the number of steps. In addition
the steps of the path say which registration a callback was handed out for.
-/

namespace Fibers

variable {σ : Type} {given : Given σ}

/-- A fiber that is about to be told, or waits to be told, the value of a callback. -/
inductive Place.Meets (callback : CallbackId) : Place σ → Prop where
  | registering (code : Code σ Unit) (stack : List (Frame σ)) :
      Meets callback (.active (.registering callback code) stack)
  | suspended (stack : List (Frame σ)) : Meets callback (.suspended callback stack)

/-- Callbacks with the registrations that they were handed out for. -/
abbrev Handing (σ : Type) : Type := CallbackId → (CallbackId → Code σ Unit) → Prop

namespace Strand

/-- A step in which no request is refused, and in which a callback supplies what is given for its
registration. -/
structure Honest (given : Given σ) (handing : Handing σ) (before : Strand σ)
    (input : Option (Input σ)) (after : Strand σ) : Prop where
  granted : ∀ payload, input ≠ some (.refused payload)
  handed : ∀ register stack callback, before.place = .active (.node (.async register)) stack →
    input = some (.callback callback) → handing callback register
  told : ∀ callback value, before.place.Meets callback → input = some (.value value) →
    ∀ register value', handing callback register → given register = some value' → value = value'

variable {handing : Handing σ} {stack : List (Frame σ)} {before after : Strand σ}
  {inputs : List (Input σ)} {count : Nat} {exit : Exit Erased}

theorem Path.granted (path : Path (Honest given handing) stack before inputs count after) :
    ∀ payload, .refused payload ∉ inputs := by
  induction path with
  | here => exact fun _ => List.not_mem_nil
  | step _ _ _ fits _ ih =>
    intro payload mem
    rcases List.mem_append.mp mem with own | later
    · exact fits.granted payload (Option.mem_toList.mp own)
    · exact ih payload later

/-- What honest paths of a number of steps come to is what pure effects mean. -/
def Fulfils (given : Given σ) (handing : Handing σ) (count : Nat) : Prop :=
  ∀ {effect : Node σ} {stack : List (Frame σ)} {holding : Holding} {calling : Bool}
    {inputs : List (Input σ)} {after : Strand σ} {exit : Exit Erased}, effect.Pure given →
    Path (Honest given handing) stack ⟨.active (.node effect) stack, holding, calling⟩ inputs count
      after →
    after.place.Reaches stack exit →
    Means given holding.environments effect exit ∧ holding.Keeps after.holding

/-- An honest path leads through code to what this is certain to come to. -/
theorem Path.of_certain {α : Type} {focus : Code σ α → Focus σ} {fault : Payload → Focus σ}
    (runs : CodeFocus focus fault) {code : Code σ α} {result : Except Payload α}
    (certain : code.Certain result) {holding : Holding}
    (path : Path (Honest given handing) stack ⟨.active (focus code) stack, holding, false⟩ inputs
      count after)
    (reaches : after.place.Reaches stack exit) :
    ∃ rest count', count' < count ∧
      ((∃ payload, result = .error payload ∧
          Path (Honest given handing) stack ⟨.active (fault payload) stack, holding, false⟩ rest
            count' after) ∨
        ∃ value calling input mid, result = .ok value ∧
          Step ⟨.active (focus (.done value)) stack, holding, calling⟩ input mid ∧
          Honest given handing ⟨.active (focus (.done value)) stack, holding, calling⟩ input mid ∧
          Path (Honest given handing) stack mid rest count' after) := by
  have granted := path.granted
  obtain ⟨first, second, count', rfl, lt, ends⟩ := path.of_code_good runs reaches
  have granted' : ∀ payload, .refused payload ∉ first :=
    fun payload mem => granted payload (List.mem_append_left _ mem)
  rcases ends with ⟨payload, computes, rest⟩ |
    ⟨value, calling, input, mid, second, computes, rfl, step, _, fits, rest⟩
  · exact ⟨_, _, lt, .inl ⟨payload, (computes.eq_of_certain certain granted').symm, rest⟩⟩
  · exact ⟨_, _, lt, .inr ⟨value, calling, input, mid,
      (computes.eq_of_certain certain granted').symm, step, fits, rest⟩⟩

/-- What an honest path does with code that is certain to build the next effect. -/
theorem Path.means_of_built (ih : ∀ count' < count, Fulfils given handing count')
    {code : Code σ (Node σ)} (built : Node.BuiltPure given code) {holding : Holding}
    (path : Path (Honest given handing) stack ⟨.active (.building code) stack, holding, false⟩
      inputs count after)
    (reaches : after.place.Reaches stack exit) :
    ∃ built, code.Certain built ∧ Means given holding.environments (.ofBuilt built) exit ∧
      holding.Keeps after.holding := by
  obtain ⟨result, certain, pure⟩ := built
  refine ⟨result, certain, ?_⟩
  obtain ⟨_, count', lt, ⟨payload, rfl, rest⟩ | ⟨next, _, _, _, rfl, step, fits, rest⟩⟩ :=
    path.of_certain codeFocus_building certain reaches
  · exact ih count' lt (Node.pure_failNow _) rest reaches
  · obtain ⟨_, rfl⟩ := step.of_ended (.building next) fits.granted
    exact ih count' lt (pure next rfl) rest reaches

/-- What an honest path does with a pure effect above one more frame. -/
theorem Path.means_of_above (ih : ∀ count' ≤ count, Fulfils given handing count') {effect : Node σ}
    (pure : effect.Pure given) {frame : Frame σ} {holding : Holding}
    (path : Path (Honest given handing) stack
      ⟨.active (.node effect) (frame :: stack), holding, false⟩ inputs count after)
    (reaches : after.place.Reaches stack exit) :
    ∃ mid rest count' outcome, count' ≤ count ∧ Means given holding.environments effect outcome ∧
      holding.Keeps mid.holding ∧ mid.place.Reaches (frame :: stack) outcome ∧
      Path (Honest given handing) stack mid rest count' after := by
  obtain ⟨mid, first, second, count₁, count₂, outcome, rfl, rfl, upper, reached, lower⟩ :=
    path.above reaches
  obtain ⟨means, keeps⟩ := ih count₁ (Nat.le_add_right _ _) pure upper reached
  exact ⟨mid, second, count₂, outcome, Nat.le_add_left _ _, means, keeps, reached, lower⟩

/-- What an honest path does with a pure effect under a handler. -/
theorem Path.means_of_handled (ih : ∀ count' ≤ count, Fulfils given handing count')
    {effect : Node σ} (pure : effect.Pure given) {handler : Handler σ} {holding : Holding}
    (path : Path (Honest given handing) stack
      ⟨.active (.node effect) (.fold handler :: stack), holding, false⟩ inputs count after)
    (reaches : after.place.Reaches stack exit) :
    ∃ rest count' outcome holding', count' ≤ count ∧
      Means given holding.environments effect outcome ∧ holding.Keeps holding' ∧
      Path (Honest given handing) stack
        ⟨.active (.building (handler.receive outcome)) stack, holding', false⟩ rest count'
          after := by
  obtain ⟨mid, first, second, count₁, count₂, outcome, rfl, rfl, upper, reached, lower⟩ :=
    path.handled reaches
  obtain ⟨means, keeps⟩ := ih count₁ (by omega) pure upper reached
  exact ⟨second, count₂, outcome, mid.holding, by omega, means, keeps, lower⟩

theorem means_sync {code : Code σ Erased} {result : Except Payload Erased} {holding : Holding}
    (certain : code.Certain result)
    (path : Path (Honest given handing) stack ⟨.active (.thunk code) stack, holding, false⟩ inputs
      count after) (reaches : after.place.Reaches stack exit) :
    Means given holding.environments (.sync code) exit ∧ holding.Keeps after.holding := by
  obtain ⟨_, _, _, ⟨payload, rfl, rest⟩ | ⟨value, _, _, _, rfl, step, fits, rest⟩⟩ :=
    path.of_certain codeFocus_thunk certain reaches
  · obtain ⟨_, rfl, rfl⟩ := rest.of_reached (.cause _ []) reaches
    exact ⟨.sync certain, .refl _⟩
  · obtain ⟨_, rfl⟩ := step.of_ended (.thunk value) fits.granted
    obtain ⟨_, rfl, rfl⟩ := rest.of_reached (.value value) reaches
    exact ⟨.sync certain, .refl _⟩

theorem means_fail {code : Code σ Cause} {result : Except Payload Cause} {holding : Holding}
    (certain : code.Certain result)
    (path : Path (Honest given handing) stack ⟨.active (.raising code) stack, holding, false⟩ inputs
      count after) (reaches : after.place.Reaches stack exit) :
    Means given holding.environments (.fail code) exit ∧ holding.Keeps after.holding := by
  obtain ⟨_, _, _, ⟨payload, rfl, rest⟩ | ⟨cause, _, _, _, rfl, step, fits, rest⟩⟩ :=
    path.of_certain codeFocus_raising certain reaches
  · obtain ⟨_, rfl, rfl⟩ := rest.of_reached (.cause _ []) reaches
    exact ⟨.fail certain, .refl _⟩
  · obtain ⟨_, rfl⟩ := step.of_ended (.raising cause) fits.granted
    obtain ⟨_, rfl, rfl⟩ := rest.of_reached (.cause cause []) reaches
    exact ⟨.fail certain, .refl _⟩

/-- The value of a callback comes at once, or the fiber is suspended and goes on with it. -/
theorem Path.told_of_registered {register : CallbackId → Code σ Unit} {callback : CallbackId}
    {value : Erased} {holding : Holding} {calling : Bool} {input : Option (Input σ)}
    {mid : Strand σ} (handed : handing callback register) (known : given register = some value)
    (step : Step ⟨.active (.registering callback (.done ())) stack, holding, calling⟩ input mid)
    (fits : Honest given handing
      ⟨.active (.registering callback (.done ())) stack, holding, calling⟩ input mid)
    (path : Path (Honest given handing) stack mid inputs count after)
    (reaches : after.place.Reaches stack exit) :
    exit = .success value ∧ after.holding = holding := by
  rcases step.of_returned fits.granted with ⟨told, rfl, rfl⟩ | ⟨rfl, rfl⟩
  · obtain ⟨_, rfl, rfl⟩ := path.of_reached (.value told) reaches
    cases fits.told callback told (.registering _ _) rfl register value handed known
    exact ⟨rfl, rfl⟩
  · obtain ⟨input, mid, inputs, count', _, _, _, step, fits, path⟩ :=
      path.next_good_of_reaches reaches fun _ => nofun
    cases step with
    | @resumed _ told =>
      obtain ⟨_, rfl, same⟩ := path.of_succeed reaches
      cases fits.told callback told (.suspended _) rfl register value handed known
      exact ⟨rfl, same⟩

theorem means_async {register : CallbackId → Code σ Unit} {callback : CallbackId} {value : Erased}
    {holding : Holding} (handed : handing callback register) (known : given register = some value)
    (certain : ∀ callback, (register callback).Certain (.ok ()))
    (path : Path (Honest given handing) stack
      ⟨.active (.registering callback (register callback)) stack, holding, false⟩ inputs count
      after)
    (reaches : after.place.Reaches stack exit) :
    Means given holding.environments (.async register) exit ∧ holding.Keeps after.holding := by
  obtain ⟨_, _, _, ⟨_, other, _⟩ | ⟨_, _, _, _, _, step, fits, rest⟩⟩ :=
    path.of_certain (codeFocus_registering callback) (certain callback) reaches
  · cases other
  · obtain ⟨rfl, same⟩ := rest.told_of_registered handed known step fits reaches
    rw [same]
    exact ⟨.async known certain, .refl _⟩

theorem means_asyncPanicked {register : CallbackId → Code σ Unit} {callback : CallbackId}
    {payload : Payload} {holding : Holding}
    (certain : ∀ callback, (register callback).Certain (.error payload))
    (path : Path (Honest given handing) stack
      ⟨.active (.registering callback (register callback)) stack, holding, false⟩ inputs count
      after)
    (reaches : after.place.Reaches stack exit) :
    Means given holding.environments (.async register) exit ∧ holding.Keeps after.holding := by
  obtain ⟨_, _, _, ⟨_, same, rest⟩ | ⟨_, _, _, _, other, _⟩⟩ :=
    path.of_certain (codeFocus_registering callback) (certain callback) reaches
  · cases same
    obtain ⟨_, rfl, rfl⟩ := rest.of_reached (.cause _ []) reaches
    exact ⟨.asyncPanicked certain, .refl _⟩
  · cases other

/-- What honest paths of any number of steps come to is what pure effects mean. -/
theorem fulfils (count : Nat) : Fulfils given handing count := by
  -- On the number of steps: the first one interprets the node, and what the rest evaluates
  -- is shorter.
  induction count using Nat.strong_induction_on with
  | _ count ih =>
    intro effect stack holding calling inputs after exit pure path reaches
    obtain ⟨input, mid, inputs, count, rfl, rfl, undue, step, fits, path⟩ :=
      path.next_good_of_reaches reaches fun _ => nofun
    have meaning := step.interprets undue
    have le : ∀ count' ≤ count, Fulfils given handing count' := fun count' le =>
      ih count' (by omega)
    have lt : ∀ count' < count, Fulfils given handing count' := fun count' lt =>
      ih count' (by omega)
    cases pure with
    | succeed value =>
      cases meaning
      obtain ⟨_, rfl, rfl⟩ := path.of_reached (.value value) reaches
      exact ⟨.succeed _ value, .refl _⟩
    | sync certain =>
      cases meaning
      exact means_sync certain path reaches
    | fail certain =>
      cases meaning
      exact means_fail certain path reaches
    | async known certain =>
      cases meaning with
      | async _ callback =>
        have handed := fits.handed _ _ callback rfl rfl
        exact means_async handed known certain path reaches
    | asyncPanicked certain =>
      cases meaning
      exact means_asyncPanicked certain path reaches
    | flatMap effect_pure continuation_pure =>
      cases meaning
      obtain ⟨mid, second, count', outcome, small, means, keeps, reached, path⟩ :=
        path.means_of_above le effect_pure reaches
      -- A failure unwinds past the frame of the continuation, so nothing is built and nothing
      -- of the path is left.
      cases outcome with
      | failure cause =>
        obtain ⟨_, rfl, rfl⟩ := path.of_reached reached.of_apply reaches
        exact ⟨.flatMapSkipped means, keeps⟩
      | success value =>
        obtain ⟨input, mid', second, count', rfl, rfl, _, step, path⟩ :=
          path.next_of_reaches reaches fun _ => reached.not_below
        obtain ⟨rfl, rfl⟩ := step.of_reaches_apply reached
        obtain ⟨built, certain, means', keeps'⟩ :=
          path.means_of_built (fun count'' small' => le count'' (by omega))
            (continuation_pure.applyTo value) reaches
        rw [keeps.1] at means'
        exact ⟨.flatMap means certain means', keeps.trans keeps'⟩
    | fold effect_pure handler_pure =>
      cases meaning
      -- Whatever the effect comes to, the handler takes it and builds the rest.
      obtain ⟨second, count', outcome, holding', small, means, keeps, path⟩ :=
        path.means_of_handled le effect_pure reaches
      obtain ⟨built, certain, means', keeps'⟩ :=
        path.means_of_built (fun count'' small' => le count'' (by omega))
          (handler_pure.receive outcome) reaches
      rw [keeps.1] at means'
      exact ⟨.fold means certain means', keeps.trans keeps'⟩
    | shift executor =>
      cases meaning
      obtain ⟨_, rfl, same⟩ := path.of_succeed reaches
      rw [same]
      exact ⟨.shift _ executor, rfl, rfl⟩
    | withStatus effect_pure status =>
      cases meaning
      obtain ⟨second, count', outcome, holding', _, means, keeps, path⟩ :=
        path.means_of_handled le effect_pure reaches
      rw [Handler.receive_finalizer] at path
      obtain ⟨_, rfl, same⟩ := path.of_restorer interprets_restoreStatus reaches
      rw [same]
      exact ⟨.withStatus means, keeps.1, congrArg (·.setStatus holding.flags.status) keeps.2⟩
    | provide effect_pure environment =>
      cases meaning
      obtain ⟨second, count', outcome, holding', _, means, keeps, path⟩ :=
        path.means_of_handled le effect_pure reaches
      rw [Handler.receive_finalizer] at path
      obtain ⟨_, rfl, same⟩ := path.of_restorer interprets_leaveScope reaches
      rw [same]
      exact ⟨.provide means, congrArg List.tail keeps.1, keeps.2⟩
    | access continuation_pure =>
      cases meaning with
      | @access _ environment outer provided =>
        obtain ⟨built, certain, means, keeps⟩ :=
          path.means_of_built lt (continuation_pure.applyTo environment) reaches
        -- The environment at hand is the innermost one that is provided.
        rw [provided] at means ⊢
        exact ⟨.access certain means, keeps⟩
      | accessNothing _ missing =>
        obtain ⟨_, rfl, rfl⟩ := path.of_reached (.cause _ []) reaches
        rw [missing]
        exact ⟨.accessNothing _, .refl _⟩

/-- A fiber comes down from a pure effect with what the effect means. -/
theorem means_of_path {effect : Node σ} {holding : Holding} {calling : Bool}
    (pure : effect.Pure given)
    (path : Path (Honest given handing) stack ⟨.active (.node effect) stack, holding, calling⟩
      inputs count after)
    (reaches : after.place.Reaches stack exit) :
    Means given holding.environments effect exit := (fulfils count pure path reaches).1

end Strand

end Fibers
