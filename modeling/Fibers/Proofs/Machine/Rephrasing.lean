import Fibers.Proofs.Machine.Rejoin

/-!
# Two descriptions of one effect

Two descriptions run one effect, each above frames of its own, and build the same from its values.
A fiber that has begun with one of them pushes other frames, builds other effects and takes a few
silent steps more or less than it would have with the other.

## Main result

`Rephrasing.Lawful.rejoins`: wherever a fiber stands on either side, both sides rejoin.

## Proof strategy

`Rephrasing.Apart` says where a fiber may stand on either side: anywhere above the frames of the
side, in the middle of the user code that builds what comes next, or at the defect that a panic of
this code leaves. `Rephrasing.Lawful` asks for the rest, that both sides rejoin where they begin,
where a value comes down to their frames, and where user code has returned.
-/

namespace Fibers

variable {σ : Type}

open Machine (Rejoins Lockstep Level)

/-- The same frames on top of different ones. -/
inductive Above (low low' : List (Frame σ)) : List (Frame σ) → List (Frame σ) → Prop where
  | same (stack : List (Frame σ)) : Above low low' stack stack
  | base : Above low low' low low'
  | push (frame : Frame σ) {stack stack' : List (Frame σ)} (above : Above low low' stack stack') :
      Above low low' (frame :: stack) (frame :: stack')

theorem Above.unwind {low low' stack stack' : List (Frame σ)} (h : Above low low' stack stack')
    (dropped : unwind low = unwind low') :
    Option.Rel (fun found found' => found'.1 = found.1 ∧ Above low low' found.2 found'.2)
      (Fibers.unwind stack) (Fibers.unwind stack') := by
  induction h with
  | same stack => exact rel_refl (fun _ => ⟨rfl, .same _⟩) _
  | base =>
    rw [dropped]
    exact rel_refl (fun _ => ⟨rfl, .same _⟩) _
  | push frame above ih =>
    cases frame with
    | apply continuation => exact ih
    | fold handler => exact .some ⟨rfl, above⟩

/-- Two ways to describe an effect above the same frames. -/
structure Rephrasing (σ : Type) where
  node : Node σ
  node' : Node σ
  stack : List (Frame σ)
  /-- The frames above which both run the same effect. -/
  low : List (Frame σ)
  low' : List (Frame σ)
  /-- What the user code returns that builds the next effect, on one side above other frames. -/
  Result : Type
  built : List (Frame σ)
  next : Result → Code σ (Node σ)
  next' : Result → Code σ (Node σ)

namespace Rephrasing

variable {r : Rephrasing σ} {id : FiberId} {accepts : Erased → Prop}

/-- Where a fiber may stand on either side. -/
inductive Apart (r : Rephrasing σ) : Place σ → Place σ → Prop where
  | start : Apart r (.active (.node r.node) r.stack) (.active (.node r.node') r.stack)
  | active {stack stack' : List (Frame σ)} (above : Above r.low r.low' stack stack')
      (focus : Focus σ) : Apart r (.active focus stack) (.active focus stack')
  | suspended {stack stack' : List (Frame σ)} (above : Above r.low r.low' stack stack')
      (callback : CallbackId) : Apart r (.suspended callback stack) (.suspended callback stack')
  | building (code : Code σ r.Result) :
      Apart r (.active (.building (code.bind r.next)) r.built)
        (.active (.building (code.bind r.next')) r.stack)
  | doomed (cause : Cause) :
      Apart r (.active (.node (.failNow cause)) r.built) (.active (.node (.failNow cause)) r.stack)

/-- One fiber may stand on either side. -/
def twins (r : Rephrasing σ) (id : FiberId) : Matching σ :=
  fun fiber place place' => place' = place ∨ fiber = id ∧ r.Apart place place'

theorem only_twins (r : Rephrasing σ) (id : FiberId) : (r.twins id).Only id :=
  fun _ _ _ other same => same.resolve_right fun own => other own.1

theorem coherent_twins (r : Rephrasing σ) (id : FiberId) : (r.twins id).Coherent where
  refl _ _ := .inl rfl
  resumed := by
    rintro fiber callback stack stack' (same | ⟨rfl, apart⟩) value
    · cases same
      exact .inl rfl
    · cases apart with
      | suspended above => exact .inr ⟨rfl, .active above _⟩
  registering := by
    rintro fiber focus focus' stack stack' (same | ⟨rfl, apart⟩)
    · cases same
      rfl
    · cases apart <;> rfl
  caught := by
    rintro fiber focus focus' stack stack' (same | ⟨rfl, apart⟩) payload
    · cases same
      exact rel_refl (fun _ => .inl rfl) _
    · cases apart with
      | start | doomed => exact .none
      | active above => exact rel_refl (fun _ => .inr ⟨rfl, .active above _⟩) _
      -- The defect of a panic stands where the next effect would have: above other frames.
      | building => exact .some (.inr ⟨rfl, .doomed _⟩)

theorem level_above (r : Rephrasing σ) (id : FiberId) :
    Level (r.twins id) id (Above r.low r.low') where
  active above focus := .inr ⟨rfl, .active above focus⟩
  suspended above callback := .inr ⟨rfl, .suspended above callback⟩
  push above frame := .push frame above

/-- Both sides rejoin where user code has returned. -/
def Returns (r : Rephrasing σ) (id : FiberId) : Prop :=
  ∀ result, Rejoins (r.twins id) id (.active (.building (r.next result)) r.built)
    (.active (.building (r.next' result)) r.stack)

/-- Both sides rejoin where they begin, where a value comes down to their frames, and
where user code has returned. -/
structure Lawful (r : Rephrasing σ) (id : FiberId) (accepts : Erased → Prop) : Prop where
  dropped : unwind r.low = unwind r.low'
  spared : unwind r.built = unwind r.stack
  start : Rejoins (r.twins id) id (.active (.node r.node) r.stack) (.active (.node r.node') r.stack)
  value : ∀ value, accepts value →
    Rejoins (r.twins id) id (.active (.value value) r.low) (.active (.value value) r.low')
  returns : r.Returns id

theorem rejoins_same (r : Rephrasing σ) (id : FiberId) {place place' : Place σ} {focus : Focus σ}
    {stack : List (Frame σ)} (leads : place.Leads (.active focus stack))
    (leads' : place'.Leads (.active focus stack)) : Rejoins (r.twins id) id place place' :=
  ⟨focus, stack, focus, stack, leads, leads',
    Machine.lockstep_refl (r.coherent_twins id) id focus stack⟩

/-- Nodes do the same above the frames of either side. -/
theorem rejoins_node (r : Rephrasing σ) (id : FiberId) {place place' : Place σ} {current : Node σ}
    (leads : place.Leads (.active (.node current) r.low))
    (leads' : place'.Leads (.active (.node current) r.low')) :
    Rejoins (r.twins id) id place place' := by
  have lockstep : Lockstep (r.twins id) id (.node current) r.low (.node current) r.low' :=
    Machine.lockstep_level (r.coherent_twins id) (r.level_above id) .base nofun nofun
  exact ⟨_, _, _, _, leads, leads', lockstep⟩

theorem rejoins_doomed (spared : unwind r.built = unwind r.stack) {place place' : Place σ}
    {cause : Cause} (leads : place.Leads (.active (.cause cause) r.built))
    (leads' : place'.Leads (.active (.cause cause) r.stack)) :
    Rejoins (r.twins id) id place place' :=
  ⟨_, _, _, _, leads, leads', Machine.lockstep_cause (r.coherent_twins id) id cause spared⟩

/-- Both sides run the same user code, and panic in it or rejoin where it returns. -/
theorem rejoins_building (returns : r.Returns id) (code : Code σ r.Result) :
    Rejoins (r.twins id) id (.active (.building (code.bind r.next)) r.built)
      (.active (.building (code.bind r.next')) r.stack) := by
  by_cases finished : ∃ result, code = .done result
  · obtain ⟨result, rfl⟩ := finished
    exact returns result
  · exact ⟨_, _, _, _, .refl _, .refl _,
      Machine.lockstep_building (r.coherent_twins id) (fun result same => finished ⟨result, same⟩)
        fun rest => .inr ⟨rfl, .building rest⟩⟩

/-- Above the frames of either side a fiber does the same, until it comes down to them. -/
theorem Lawful.rejoins_above (h : r.Lawful id accepts) {stack stack' : List (Frame σ)}
    (above : Above r.low r.low' stack stack') (focus : Focus σ)
    (accepted : ∀ value, focus = .value value → stack = r.low → accepts value) :
    Rejoins (r.twins id) id (.active focus stack) (.active focus stack') := by
  have coherent := r.coherent_twins id
  have higher (held : ∀ value, focus = .value value → stack = [] ∧ stack' = [] ∨
      ∃ frame rest rest', stack = frame :: rest ∧ stack' = frame :: rest' ∧
        Above r.low r.low' rest rest') :
      Rejoins (r.twins id) id (.active focus stack) (.active focus stack') :=
    ⟨focus, stack, focus, stack', .refl _, .refl _,
      Machine.lockstep_level coherent (r.level_above id) above held fun _ _ =>
        above.unwind h.dropped⟩
  cases above with
  | same => exact r.rejoins_same id (.refl _) (.refl _)
  | push frame above => exact higher fun _ _ => .inr ⟨frame, _, _, rfl, rfl, above⟩
  | base =>
    cases focus with
    | value value => exact h.value value (accepted value rfl rfl)
    -- A cause does not stop at these frames, and nothing else looks at them.
    | node | cause | thunk | raising | building | registering => exact higher nofun

/-- Wherever a fiber stands on either side, both sides rejoin. -/
theorem Lawful.rejoins (h : r.Lawful id accepts) {focus focus' : Focus σ}
    {stack stack' : List (Frame σ)}
    (place : r.twins id id (.active focus stack) (.active focus' stack'))
    (accepted : ∀ value, focus = .value value → stack = r.low → accepts value) :
    Rejoins (r.twins id) id (.active focus stack) (.active focus' stack') := by
  rcases place with same | ⟨-, apart⟩
  · cases same
    exact r.rejoins_same id (.refl _) (.refl _)
  · cases apart with
    | start => exact h.start
    | active above => exact h.rejoins_above above focus accepted
    | building code => exact rejoins_building h.returns code
    | doomed cause => exact rejoins_doomed h.spared (.failNow (.refl _)) (.failNow (.refl _))

end Rephrasing

end Fibers
