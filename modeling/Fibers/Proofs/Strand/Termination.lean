import Fibers.Proofs.Effect.Bounded
import Fibers.Proofs.Strand.Path

/-!
# Bounded fibers come to an end

A handler or a finalizer makes a new effect while a fiber unwinds, an interruption puts one effect
on the stack and another one in its place, and a callback begins a loop anew. Still, a fiber that
runs a bounded effect takes finitely many steps, whatever it is told and whenever it is asked for
interruption, and so do all fibers that it forks.

## Main results

`Strand.Bears.bounded`: what comes of a bounded fiber is bounded. `Place.Bounded.ends`: a bounded
fiber comes to an end.

## Proof strategy

A stack is `Ready` if a fiber comes to an end once it has a value or a cause for it. The induction
is on the effect, over all stacks that are ready: the frame that a node pushes makes another such
stack. An interruption takes effect once, after which its cause unwinds the stack as any other cause
does.
-/

namespace Fibers

variable {σ : Type}

/-- User code gets to its end by answers to its requests. -/
theorem Action.induction_on_answers {ν κ α : Type} {motive : Action ν κ σ α → Prop}
    (h : ∀ code, (∀ answer rest, code.answered answer = some rest → motive rest) → motive code)
    (code : Action ν κ σ α) : motive code := by
  induction code
  case done | panic =>
    refine h _ fun answer rest next => ?_
    cases answer <;> cases next
  all_goals
    rename_i ih
    refine h _ fun answer rest next => ?_
    cases answer <;> cases next
    exact ih _

/-! ### Bounded places -/

inductive Focus.Bounded : Focus σ → Prop where
  | node {current : Node σ} (h : current.Bounded) : Bounded (.node current)
  | value (value : Erased) : Bounded (.value value)
  | cause (cause : Cause) : Bounded (.cause cause)
  | thunk {code : Code σ Erased} (h : code.Modest) : Bounded (.thunk code)
  | raising {code : Code σ Cause} (h : code.Modest) : Bounded (.raising code)
  | building {code : Code σ (Node σ)} (h : code.Builds Node.Bounded) : Bounded (.building code)
  | registering (callback : CallbackId) {code : Code σ Unit} (h : code.Modest) :
      Bounded (.registering callback code)

inductive Place.Bounded : Place σ → Prop where
  | active {focus : Focus σ} {stack : List (Frame σ)} (focus_bounded : focus.Bounded)
      (frames : ∀ frame ∈ stack, frame.Bounded) : Bounded (.active focus stack)
  | suspended {callback : CallbackId} {stack : List (Frame σ)}
      (frames : ∀ frame ∈ stack, frame.Bounded) : Bounded (.suspended callback stack)

theorem Focus.Bounded.caught {focus next : Focus σ} {payload : Payload} (h : focus.Bounded)
    (caught : focus.caught payload = some next) : next.Bounded := by
  cases h with
  | node | value | cause => cases caught
  | thunk | raising | registering =>
    cases caught
    exact .cause _
  | building =>
    cases caught
    exact .node (Node.bounded_failNow _)

theorem frames_bounded_cons {frame : Frame σ} {stack : List (Frame σ)} (h : frame.Bounded)
    (frames : ∀ frame ∈ stack, frame.Bounded) : ∀ other ∈ frame :: stack, other.Bounded :=
  List.forall_mem_cons.mpr ⟨h, frames⟩

theorem frames_bounded_unwind {stack rest : List (Frame σ)} {handler : Handler σ}
    (frames : ∀ frame ∈ stack, frame.Bounded) (found : unwind stack = some (handler, rest)) :
    handler.Bounded ∧ ∀ frame ∈ rest, frame.Bounded := by
  obtain ⟨dropped, rfl⟩ := unwind_eq_some_iff.mp found
  constructor
  · cases frames (.fold handler) (by simp)
    assumption
  · intro frame mem
    exact frames frame (List.mem_append_right _ (List.mem_cons_of_mem _ mem))

theorem Node.Interprets.bounded {node : Node σ} {stack : List (Frame σ)} {holding : Holding}
    {input : Option (Input σ)} {next : Strand σ} (h : node.Bounded)
    (frames : ∀ frame ∈ stack, frame.Bounded) (meaning : node.Interprets stack holding input next) :
    next.place.Bounded := by
  cases meaning with
  | succeed value => exact .active (.value _) frames
  | sync code =>
    cases h with
    | sync code => exact .active (.thunk code) frames
  | flatMap =>
    cases h with
    | flatMap effect continuation =>
      exact .active (.node effect) (frames_bounded_cons (.apply continuation) frames)
  | async register callback =>
    cases h with
    | async code => exact .active (.registering callback (code callback)) frames
  | fork => exact .active (.value _) frames
  | fail =>
    cases h with
    | fail code => exact .active (.raising code) frames
  | fold =>
    cases h with
    | fold effect handler =>
      exact .active (.node effect) (frames_bounded_cons (.fold handler) frames)
  | shift => exact .active (.node (.succeed _)) frames
  | withStatus =>
    cases h with
    | withStatus effect =>
      have restore := Frame.Bounded.fold
        (.finalizer (Node.Bounded.restoreStatus (σ := σ) holding.flags.status))
      exact .active (.node effect) (frames_bounded_cons restore frames)
  | provide =>
    cases h with
    | provide effect =>
      exact .active (.node effect)
        (frames_bounded_cons (.fold (.finalizer .leaveScope)) frames)
  | access _ provided =>
    cases h with
    | access continuation => exact .active (.building (continuation.applyTo _)) frames
  | accessNothing => exact .active (.cause _) frames
  | restoreStatus | leaveScope => exact .active (.value _) frames

namespace Strand

theorem Step.bounded {strand next : Strand σ} {input : Option (Input σ)}
    (step : strand.Step input next) (h : strand.place.Bounded) : next.place.Bounded := by
  obtain ⟨place, holding, calling⟩ := strand
  cases h with
  | suspended frames =>
    cases step with
    | resumed => exact .active (.node (.succeed _)) frames
  | @active focus stack focus_bounded frames =>
    cases step with
    | interrupted due =>
      cases focus_bounded with
      | node h =>
        exact .active (.node (Node.bounded_failNow _))
          (frames_bounded_cons (.apply (.constant h)) frames)
    | interpreted undue meaning =>
      cases focus_bounded with
      | node h => exact meaning.bounded h frames
    | delivered =>
      obtain ⟨frame_bounded, frames⟩ := List.forall_mem_cons.mp frames
      exact .active (.building (frame_bounded.resume _)) frames
    | handled found =>
      obtain ⟨handler, frames⟩ := frames_bounded_unwind frames found
      exact .active (.building (handler.recover _)) frames
    -- What bounds user code bounds each of its results and answers.
    | ended ended =>
      cases ended with
      | thunk value => exact .active (.value value) frames
      | raising cause => exact .active (.cause cause) frames
      | building next =>
        cases focus_bounded with
        | building h => exact .active (.node (Action.yields_done_iff.mp h.yields)) frames
    | answered answered =>
      refine .active ?_ frames
      cases answered with
      | thunk next =>
        cases focus_bounded with
        | thunk h => exact .thunk (h.answered next)
      | raising next =>
        cases focus_bounded with
        | raising h => exact .raising (h.answered next)
      | building next =>
        cases focus_bounded with
        | building h => exact .building ⟨h.modest.answered next, h.yields.answered next⟩
      | registering next =>
        cases focus_bounded with
        | registering _ h => exact .registering _ (h.answered next)
    | panicked _ caught => exact .active (focus_bounded.caught caught) frames
    | refused caught => exact .active (focus_bounded.caught caught) frames
    | met => exact .active (.value _) frames
    | parked => exact .suspended frames

/-! ### What comes of a fiber -/

/-- What comes of a fiber: itself after a step, which may follow a request for interruption, or a
fiber that it forks. -/
inductive Bears : Strand σ → Strand σ → Prop where
  | step {strand asked next : Strand σ} {input : Option (Input σ)}
      (request : asked = strand ∨ asked = strand.request) (step : asked.Step input next) :
      Bears strand next
  | child {effect : Node σ} {stack : List (Frame σ)} {holding : Holding} {calling : Bool}
      (holding' : Holding) (calling' : Bool) :
      Bears ⟨.active (.node (.fork effect)) stack, holding, calling⟩
        ⟨.active (.node effect) [], holding', calling'⟩

theorem Bears.bounded {strand next : Strand σ} (bears : strand.Bears next)
    (h : strand.place.Bounded) : next.place.Bounded := by
  cases bears with
  | step request step =>
    rcases request with rfl | rfl
    · exact step.bounded h
    · have asked : strand.request.place.Bounded := h
      exact step.bounded asked
  | child =>
    cases h with
    | active focus =>
      cases focus with
      | node h =>
        cases h with
        | fork effect => exact .active (.node effect) (List.forall_mem_nil _)

/-- A fiber, all that it forks, and all that these fork, come to an end. -/
def Ends (strand : Strand σ) : Prop := Acc (fun next strand : Strand σ => strand.Bears next) strand

end Strand

/-- A fiber that stands here comes to an end, whatever is kept for it. -/
def Place.Ends (place : Place σ) : Prop :=
  ∀ holding calling, (Strand.mk place holding calling).Ends

theorem Place.ends_of_steps {place : Place σ}
    (single : ∀ effect stack, place ≠ .active (.node (.fork effect)) stack)
    (h : ∀ holding calling input next,
      (Strand.mk place holding calling).Step input next → next.Ends) : place.Ends := by
  intro holding calling
  refine .intro _ fun next bears => ?_
  cases bears with
  | step request step => rcases request with rfl | rfl <;> exact h _ _ _ _ step
  | child => exact absurd rfl (single _ _)

/-- User code comes to an end if what its results and its panics lead to does. -/
theorem Place.ends_of_code {α : Type} {focus : Code σ α → Focus σ} {fault : Payload → Focus σ}
    (runs : Strand.CodeFocus focus fault) (busy : ∀ code current, focus code ≠ .node current)
    {stack : List (Frame σ)} (faults : ∀ payload, (Place.active (fault payload) stack).Ends)
    {code : Code σ α}
    (results : code.Yields fun result => ∀ holding calling input next,
      (Strand.mk (.active (focus (.done result)) stack) holding calling).Step input next →
        (∀ payload, input ≠ some (.refused payload)) → next.Ends) :
    (Place.active (focus code) stack).Ends := by
  induction code using Action.induction_on_answers with
  | h code ih =>
    refine Place.ends_of_steps (fun effect frames same => ?_) fun _ _ _ _ step => ?_
    · exact busy _ _ (Place.active.inj same).1
    · rcases runs.next step with
        ⟨answer, rest, rfl, next, rfl⟩ | ⟨payload, _, rfl⟩ | ⟨result, rfl, granted⟩
      · exact ih answer rest next (results.answered next) _ _
      · exact faults payload _ _
      · exact Action.yields_done_iff.mp results _ _ _ _ step granted

/-! ### Ready stacks -/

/-- A fiber comes to an end once it has a value or a cause for its stack. -/
structure Ready (stack : List (Frame σ)) : Prop where
  value : ∀ value, (Place.active (.value value) stack).Ends
  cause : ∀ cause, (Place.active (.cause cause) stack).Ends

namespace Ready

variable {stack : List (Frame σ)}

theorem nil : Ready ([] : List (Frame σ)) where
  value _ := by
    refine Place.ends_of_steps (by rintro _ _ ⟨⟩) fun _ _ _ _ step => ?_
    obtain ⟨_, _, nobody, _⟩ := step.of_value
    cases nobody
  cause _ := by
    refine Place.ends_of_steps (by rintro _ _ ⟨⟩) fun _ _ _ _ step => ?_
    obtain ⟨_, _, nobody, _⟩ := step.of_cause
    cases nobody

/-- A cause goes past a plain frame. -/
theorem cause_apply (ready : Ready stack) (continuation : Continuation σ) (cause : Cause) :
    (Place.active (.cause cause) (.apply continuation :: stack)).Ends := by
  refine Place.ends_of_steps (by rintro _ _ ⟨⟩) fun holding calling _ _ step => ?_
  obtain ⟨handler, rest, found, -, rfl⟩ := step.of_cause
  exact (ready.cause cause holding calling).inv (.step (.inl rfl) (.handled found))

theorem thunk (ready : Ready stack) (code : Code σ Erased) :
    (Place.active (.thunk code) stack).Ends := by
  refine Place.ends_of_code Strand.codeFocus_thunk nofun (fun _ => ready.cause _) ?_
  intro value _ holding calling input next step granted
  obtain ⟨_, rfl⟩ := step.of_ended (.thunk value) granted
  exact ready.value value _ _

theorem raising (ready : ∀ cause, (Place.active (.cause cause) stack).Ends) (code : Code σ Cause) :
    (Place.active (.raising code) stack).Ends := by
  refine Place.ends_of_code Strand.codeFocus_raising nofun (fun _ => ready _) ?_
  intro cause _ holding calling input next step granted
  obtain ⟨_, rfl⟩ := step.of_ended (.raising cause) granted
  exact ready cause _ _

/-- Once an interruption has taken effect, nothing comes between it and the handler of its cause. -/
theorem interrupted (ready : Ready stack) {current : Node σ} {holding : Holding} {calling : Bool}
    (finalizing : holding.flags.finalizing = true) :
    (Strand.mk (.active (.node (.failNow .interrupt)) (.apply (.constant current) :: stack)) holding
      calling).Ends := by
  refine .intro _ fun next bears => ?_
  cases bears with
  | step request step =>
    have rest := raising (ready.cause_apply (.constant current)) (.done .interrupt)
    rcases request with rfl | rfl
    all_goals
      cases step.interprets (Strand.shouldInterrupt_of_finalizing finalizing)
      exact rest _ _

/-- A fiber about to interpret a node comes to an end, if what the node leads to does. -/
theorem node (ready : Ready stack) {current : Node σ}
    (next : ∀ holding input next, current.Interprets stack holding input next → next.Ends)
    (child : ∀ effect, current = .fork effect → (Place.active (.node effect) []).Ends) :
    (Place.active (.node current) stack).Ends := by
  intro holding calling
  refine .intro _ fun strand bears => ?_
  cases bears with
  | step request step =>
    rcases request with rfl | rfl
    all_goals
      rcases step.of_polling with ⟨_, rfl⟩ | ⟨_, meaning⟩
      · exact ready.interrupted rfl
      · exact next _ _ _ meaning
  | child => exact child _ rfl _ _

theorem succeed (ready : Ready stack) (value : Erased) :
    (Place.active (.node (.succeed value)) stack).Ends := by
  refine ready.node (fun _ _ _ meaning => ?_) (by rintro _ ⟨⟩)
  cases meaning
  exact ready.value _ _ _

theorem failNow (ready : Ready stack) (cause : Cause) :
    (Place.active (.node (.failNow cause)) stack).Ends := by
  refine ready.node (fun _ _ _ meaning => ?_) (by rintro _ ⟨⟩)
  cases meaning
  exact raising ready.cause _ _ _

theorem building (ready : Ready stack) {code : Code σ (Node σ)}
    (built : code.Yields fun next => (Place.active (.node next) stack).Ends) :
    (Place.active (.building code) stack).Ends := by
  refine Place.ends_of_code Strand.codeFocus_building nofun (fun _ => ready.failNow _) ?_
  intro node yields holding calling input next step granted
  obtain ⟨_, rfl⟩ := step.of_ended (.building node) granted
  exact built node yields _ _

theorem suspended (ready : Ready stack) (callback : CallbackId) :
    (Place.suspended callback stack).Ends := by
  refine Place.ends_of_steps (by rintro _ _ ⟨⟩) fun _ _ _ _ step => ?_
  cases step with
  | resumed => exact ready.succeed _ _ _

theorem registering (ready : Ready stack) (callback : CallbackId) (code : Code σ Unit) :
    (Place.active (.registering callback code) stack).Ends := by
  refine Place.ends_of_code (Strand.codeFocus_registering callback) nofun
    (fun _ => ready.cause _) ?_
  intro _ _ holding calling input next step granted
  rcases step.of_returned granted with ⟨value, _, rfl⟩ | ⟨_, rfl⟩
  · exact ready.value value _ _
  · exact ready.suspended callback _ _

theorem apply (ready : Ready stack) {continuation : Continuation σ}
    (built : ∀ value, (continuation.applyTo value).Yields fun next =>
      (Place.active (.node next) stack).Ends) : Ready (.apply continuation :: stack) where
  value value := by
    refine Place.ends_of_steps (by rintro _ _ ⟨⟩) fun _ _ _ _ step => ?_
    obtain ⟨-, rfl⟩ := step.of_reaches_apply (.value value)
    exact ready.building (built value) _ _
  cause := ready.cause_apply continuation

theorem fold (ready : Ready stack) {handler : Handler σ}
    (resumed : ∀ value, (handler.resume value).Yields fun next =>
      (Place.active (.node next) stack).Ends)
    (recovered : ∀ cause, (handler.recover cause).Yields fun next =>
      (Place.active (.node next) stack).Ends) : Ready (.fold handler :: stack) where
  value value := by
    refine Place.ends_of_steps (by rintro _ _ ⟨⟩) fun _ _ _ _ step => ?_
    obtain ⟨-, rfl⟩ := step.of_reaches_fold (.value value)
    exact ready.building (resumed value) _ _
  cause cause := by
    refine Place.ends_of_steps (by rintro _ _ ⟨⟩) fun _ _ _ _ step => ?_
    obtain ⟨-, rfl⟩ := step.of_reaches_fold (.cause cause [])
    exact ready.building (recovered cause) _ _

/-- A known effect after another one, of which only its value is waited for. -/
theorem constant (ready : Ready stack) {next : Node σ}
    (h : (Place.active (.node next) stack).Ends) : Ready (.apply (.constant next) :: stack) :=
  ready.apply fun _ => Action.yields_done_iff.mpr h

theorem flatMap {effect : Node σ} {continuation : Continuation σ} (ready : Ready stack)
    (h : (Place.active (.node effect) (.apply continuation :: stack)).Ends) :
    (Place.active (.node (.flatMap effect continuation)) stack).Ends := by
  refine ready.node (fun _ _ _ meaning => ?_) (by rintro _ ⟨⟩)
  cases meaning
  exact h _ _

/-- A finalizer makes an effect of its own out of every outcome. -/
theorem finalizer (ready : Ready stack) {effect : Node σ}
    (h : ∀ {stack}, Ready stack → (Place.active (.node effect) stack).Ends) :
    Ready (.fold (.finalizer effect) :: stack) := by
  refine ready.fold (fun value => ?_) fun cause => ?_
  · exact Action.yields_done_iff.mpr (ready.flatMap (h (ready.constant (ready.succeed value))))
  · exact Action.yields_done_iff.mpr (ready.flatMap (h (ready.constant (ready.failNow cause))))

theorem restoreStatus (ready : Ready stack) (status : InterruptStatus) :
    (Place.active (.node (.restoreStatus status)) stack).Ends := by
  refine ready.node (fun _ _ _ meaning => ?_) (by rintro _ ⟨⟩)
  cases meaning
  exact ready.value _ _ _

theorem leaveScope (ready : Ready stack) : (Place.active (.node .leaveScope) stack).Ends := by
  refine ready.node (fun _ _ _ meaning => ?_) (by rintro _ ⟨⟩)
  cases meaning
  exact ready.value _ _ _

end Ready

/-! ### Bounded effects -/

mutual

/-- A bounded effect comes to an end on every stack that is ready. -/
theorem Node.Bounded.ends : {node : Node σ} → node.Bounded → {stack : List (Frame σ)} →
    Ready stack → (Place.active (.node node) stack).Ends
  | _, .succeed value, _, ready => ready.succeed value
  | _, .sync _, _, ready => by
    refine ready.node (fun _ _ _ meaning => ?_) (by rintro _ ⟨⟩)
    cases meaning
    exact ready.thunk _ _ _
  | _, .flatMap effect continuation, _, ready =>
    ready.flatMap (effect.ends (ready.apply (continuation.built ready)))
  | _, .async _, _, ready => by
    refine ready.node (fun _ _ _ meaning => ?_) (by rintro _ ⟨⟩)
    cases meaning
    exact ready.registering _ _ _ _
  | _, .fork effect, _, ready => by
    refine ready.node (fun _ _ _ meaning => ?_) ?_
    · cases meaning
      exact ready.value _ _ _
    -- The child begins with no frames below its effect.
    · rintro _ ⟨⟩
      exact effect.ends .nil
  | _, .fail _, _, ready => by
    refine ready.node (fun _ _ _ meaning => ?_) (by rintro _ ⟨⟩)
    cases meaning
    exact Ready.raising ready.cause _ _ _
  | _, .fold effect handler, _, ready => by
    refine ready.node (fun _ _ _ meaning => ?_) (by rintro _ ⟨⟩)
    cases meaning
    -- The handler is bounded too, so the frames are ready with it on top.
    exact effect.ends (handler.ready ready) _ _
  | _, .shift _, _, ready => by
    refine ready.node (fun _ _ _ meaning => ?_) (by rintro _ ⟨⟩)
    cases meaning
    exact ready.succeed _ _ _
  | _, .withStatus effect _, _, ready => by
    refine ready.node (fun _ _ _ meaning => ?_) (by rintro _ ⟨⟩)
    cases meaning
    exact effect.ends (ready.finalizer fun ready => ready.restoreStatus _) _ _
  | _, .provide effect _, _, ready => by
    refine ready.node (fun _ _ _ meaning => ?_) (by rintro _ ⟨⟩)
    cases meaning
    exact effect.ends (ready.finalizer fun ready => ready.leaveScope) _ _
  | _, .access continuation, _, ready => by
    refine ready.node (fun _ _ _ meaning => ?_) (by rintro _ ⟨⟩)
    cases meaning with
    | access => exact ready.building (continuation.built ready _) _ _
    | accessNothing => exact ready.cause _ _ _
  | _, .restoreStatus status, _, ready => ready.restoreStatus status
  | _, .leaveScope, _, ready => ready.leaveScope

/-- A bounded continuation builds effects that come to an end. -/
theorem Continuation.Bounded.built : {continuation : Continuation σ} → continuation.Bounded →
    {stack : List (Frame σ)} → Ready stack → (value : Erased) →
      (continuation.applyTo value).Yields fun next => (Place.active (.node next) stack).Ends
  | _, .call _ builds, _, ready, value => fun next returns => (builds value next returns).ends ready
  | _, .constant effect, _, ready, _ => Action.yields_done_iff.mpr (effect.ends ready)

/-- The frame of a bounded handler keeps a stack ready. -/
theorem Handler.Bounded.ready : {handler : Handler σ} → handler.Bounded →
    {stack : List (Frame σ)} → Ready stack → Ready (.fold handler :: stack)
  | _, .branches _ builds success, _, ready =>
    ready.fold (success.built ready) fun cause next returns =>
      (builds cause next returns).ends ready
  | _, .finalizer effect, _, ready => ready.finalizer fun ready => effect.ends ready

end

theorem ready_of_frames {stack : List (Frame σ)} (frames : ∀ frame ∈ stack, frame.Bounded) :
    Ready stack := by
  induction stack with
  | nil => exact .nil
  | cons frame stack ih =>
    obtain ⟨first, others⟩ := List.forall_mem_cons.mp frames
    cases first with
    | apply h => exact (ih others).apply (h.built (ih others))
    | fold h => exact h.ready (ih others)

/-- A bounded fiber and all that come of it come to an end. -/
theorem Place.Bounded.ends {place : Place σ} (h : place.Bounded) : place.Ends := by
  cases h with
  | suspended frames => exact (ready_of_frames frames).suspended _
  | active focus frames =>
    have ready := ready_of_frames frames
    cases focus with
    | node h => exact h.ends ready
    | value value => exact ready.value value
    | cause cause => exact ready.cause cause
    | thunk h => exact ready.thunk _
    | raising h => exact Ready.raising ready.cause _
    | building h => exact ready.building fun next returns => (h.yields next returns).ends ready
    | registering callback h => exact ready.registering callback _

end Fibers
