import Fibers.Proofs.Effect.Authored
import Fibers.Proofs.Strand.Frames

/-!
# Scopes

A fiber enters a scope with one more environment and a frame that drops it again. What was pushed
and what is still to be dropped are counted against each other.

## Main results

`Strand.Stretch.environments_iff`: an effect is left with the environments that it was begun with,
exactly if no interruption takes effect where an environment is about to be dropped.

## Proof strategy

`Strand.Scoped outer missed` says that above `outer` there is one environment for each scope frame,
for the scope that is being left, and for each of the `missed` drops. `Step.scoped` says when a step
misses one.
-/

namespace Fibers

variable {σ : Type}

/-! ### Counting -/

/-- How many environments a frame is going to drop. -/
def Frame.scopes : Frame σ → Nat
  | .fold (.finalizer .leaveScope) => 1
  | _ => 0

/-- How many environments some frames are going to drop. -/
def scopesOf (frames : List (Frame σ)) : Nat := (frames.map Frame.scopes).sum

@[simp] theorem scopesOf_cons (frame : Frame σ) (frames : List (Frame σ)) :
    scopesOf (frame :: frames) = frame.scopes + scopesOf frames := rfl

@[simp] theorem scopesOf_append (frames frames' : List (Frame σ)) :
    scopesOf (frames ++ frames') = scopesOf frames + scopesOf frames' := by
  simp [scopesOf]

@[simp] theorem scopesOf_apply (dropped : List (Continuation σ)) :
    scopesOf (dropped.map .apply) = 0 := by
  induction dropped with
  | nil => rfl
  | cons continuation dropped ih => rw [List.map_cons, scopesOf_cons, ih]; rfl

/-- How many environments an effect drops before its outcome. -/
def Node.drops : Node σ → Nat
  | .leaveScope => 1
  | .flatMap .leaveScope _ => 1
  | _ => 0

/-- The effect drops an environment first, to leave a scope. -/
inductive Node.EndsScope : Node σ → Prop where
  | leaveScope : EndsScope .leaveScope
  | flatMap (continuation : Continuation σ) : EndsScope (.flatMap .leaveScope continuation)

theorem Node.EndsScope.drops {node : Node σ} (h : node.EndsScope) : node.drops = 1 := by
  cases h <;> rfl

theorem Node.drops_eq_zero {node : Node σ} (h : ¬node.EndsScope) : node.drops = 0 := by
  unfold Node.drops
  split
  next => exact absurd .leaveScope h
  next => exact absurd (.flatMap _) h
  next => rfl

/-- How many environments the effect at hand drops. -/
def Focus.drops : Focus σ → Nat
  | .node current => current.drops
  | .building (.done next) => next.drops
  | _ => 0

theorem Node.Authored.drops {node : Node σ} (h : node.Authored) : node.drops = 0 := by
  cases h with
  | flatMap effect_authored => cases effect_authored <;> rfl
  | _ => rfl

/-! ### What a fiber works on -/

/-- The effects by which the interpreter ends a region. -/
inductive Node.Restorer : Node σ → Prop where
  | restoreStatus (status : InterruptStatus) : Restorer (.restoreStatus status)
  | leaveScope : Restorer .leaveScope

/-- A frame that authored effects leave behind. -/
inductive Frame.Authored : Frame σ → Prop where
  | apply {continuation : Continuation σ} (h : continuation.Authored) :
      Authored (.apply continuation)
  | fold {handler : Handler σ} (h : handler.Authored) : Authored (.fold handler)
  | restorer {node : Node σ} (h : node.Restorer) : Authored (.fold (.finalizer node))

/-- What a fiber has at hand while it works on authored effects. -/
inductive Focus.Authored : Focus σ → Prop where
  | node {current : Node σ} (h : current.Authored) : Authored (.node current)
  | value (value : Erased) : Authored (.value value)
  | cause (cause : Cause) : Authored (.cause cause)
  | thunk (code : Code σ Erased) : Authored (.thunk code)
  | raising (code : Code σ Cause) : Authored (.raising code)
  | building {code : Code σ (Node σ)} (h : code.Yields Node.Authored) : Authored (.building code)
  | registering (callback : CallbackId) (code : Code σ Unit) : Authored (.registering callback code)
  | ending {restorer : Node σ} (h : restorer.Restorer) (exit : Exit Erased) :
      Authored (.building (.done (restorer.andThen (.ofExit exit))))
  | due {restorer : Node σ} (h : restorer.Restorer) (exit : Exit Erased) :
      Authored (.node (restorer.andThen (.ofExit exit)))
  | restoring {restorer : Node σ} (h : restorer.Restorer) : Authored (.node restorer)

theorem Focus.Authored.built {code : Code σ (Node σ)} (h : code.Yields Node.Authored) :
    (Focus.building code).drops = 0 := by
  cases code with
  | done next => exact (Action.yields_done_iff.mp h).drops
  | _ => rfl

/-- A handler that a step takes off is run on the outcome; what it drops, its frame was to drop. -/
theorem Frame.Authored.receive {handler : Handler σ} (h : (Frame.fold handler).Authored)
    (exit : Exit Erased) :
    (Focus.building (handler.receive exit)).Authored ∧
      (Focus.building (handler.receive exit)).drops = (Frame.fold handler).scopes := by
  cases h with
  | fold h =>
    refine ⟨.building (h.receive exit), (Focus.Authored.built (h.receive exit)).trans ?_⟩
    cases h with
    | branches => rfl
    | finalizer effect_authored => cases effect_authored <;> rfl
  | restorer h =>
    rw [Handler.receive_finalizer]
    refine ⟨.ending h exit, ?_⟩
    cases h <;> rfl

/-! ### The invariant -/

/-- There are so many environments above some others. -/
def Holding.Above (outer : List Erased) (count : Nat) (holding : Holding) : Prop :=
  ∃ extra, holding.environments = extra ++ outer ∧ extra.length = count

namespace Strand

variable {stack : List (Frame σ)} {outer : List Erased} {missed : Nat} {before after : Strand σ}

/-- A fiber works on authored effects above a stack, and above some environments it has one for each
scope that it is going to leave, and for each that it has missed to leave. -/
inductive Scoped (stack : List (Frame σ)) (outer : List Erased) (missed : Nat) :
    Strand σ → Prop where
  | working {focus : Focus σ} {inner : List (Frame σ)} {holding : Holding} {calling : Bool}
      (focus_authored : focus.Authored) (frames_authored : ∀ frame ∈ inner, frame.Authored)
      (above : holding.Above outer (scopesOf inner + focus.drops + missed))
      -- Nothing that ends a region is in the middle of a request.
      (quiet : calling = true → focus.drops = 0) :
      Scoped stack outer missed ⟨.active focus (inner ++ stack), holding, calling⟩
  | suspended {callback : CallbackId} {inner : List (Frame σ)} {holding : Holding} {calling : Bool}
      (frames_authored : ∀ frame ∈ inner, frame.Authored)
      (above : holding.Above outer (scopesOf inner + missed)) :
      Scoped stack outer missed ⟨.suspended callback (inner ++ stack), holding, calling⟩
  | cancelled {current : Node σ} {inner : List (Frame σ)} {strand : Strand σ}
      (cancelled : strand.Cancelled current (inner ++ stack))
      (frames_authored : ∀ frame ∈ inner, frame.Authored)
      (above : strand.holding.Above outer (scopesOf inner + missed)) :
      Scoped stack outer missed strand

theorem scoped_push {focus : Focus σ} {frame : Frame σ} {inner : List (Frame σ)} {holding : Holding}
    (focus_authored : focus.Authored) (frame_authored : frame.Authored)
    (frames_authored : ∀ frame ∈ inner, frame.Authored)
    (above : holding.Above outer (frame.scopes + scopesOf inner + focus.drops + missed)) :
    Scoped stack outer missed ⟨.active focus (frame :: (inner ++ stack)), holding, false⟩ := by
  have frames := List.forall_mem_cons.mpr ⟨frame_authored, frames_authored⟩
  exact .working focus_authored frames above nofun

theorem scoped_of_interpreted {current : Node σ} {inner : List (Frame σ)} {holding : Holding}
    {input : Option (Input σ)} (focus_authored : (Focus.node current).Authored)
    (frames_authored : ∀ frame ∈ inner, frame.Authored)
    (above : holding.Above outer (scopesOf inner + current.drops + missed))
    (meaning : current.Interprets (inner ++ stack) holding input after) :
    after.Scoped stack outer missed := by
  obtain ⟨extra, same, count⟩ := above
  cases focus_authored with
  | node h =>
    rw [h.drops, add_zero] at count
    cases h with
    | succeed value =>
      cases meaning
      exact .working (.value value) frames_authored ⟨extra, same, count⟩ nofun
    | sync code =>
      cases meaning
      exact .working (.thunk code) frames_authored ⟨extra, same, count⟩ nofun
    | flatMap effect_authored continuation_authored =>
      cases meaning
      refine scoped_push (.node effect_authored) (.apply continuation_authored) frames_authored
        ⟨extra, same, ?_⟩
      simp only [Frame.scopes, Focus.drops, effect_authored.drops]
      omega
    | async register =>
      cases meaning
      exact .working (.registering _ _) frames_authored ⟨extra, same, count⟩ nofun
    | fork effect_authored =>
      cases meaning
      exact .working (.value _) frames_authored ⟨extra, same, count⟩ fun _ => rfl
    | fail code =>
      cases meaning
      exact .working (.raising code) frames_authored ⟨extra, same, count⟩ nofun
    | fold effect_authored handler_authored =>
      cases meaning
      refine scoped_push (.node effect_authored) (.fold handler_authored) frames_authored
        ⟨extra, same, ?_⟩
      rw [← (Frame.Authored.fold handler_authored).receive (.success .unit) |>.2,
        Focus.Authored.built (handler_authored.receive _)]
      simp only [Focus.drops, effect_authored.drops]
      omega
    | shift executor =>
      cases meaning
      exact .working (.node (.succeed .unit)) frames_authored ⟨extra, same, count⟩ nofun
    | withStatus effect_authored status =>
      cases meaning
      refine scoped_push (.node effect_authored) (.restorer (.restoreStatus _)) frames_authored
        ⟨extra, same, ?_⟩
      simp only [Frame.scopes, Focus.drops, effect_authored.drops]
      omega
    | provide effect_authored environment =>
      cases meaning
      -- One environment more is in force, and one frame more drops it.
      refine scoped_push (.node effect_authored) (.restorer .leaveScope) frames_authored
        ⟨environment :: extra, congrArg (environment :: ·) same, ?_⟩
      simp only [Frame.scopes, Focus.drops, effect_authored.drops, List.length_cons]
      omega
    | access continuation_authored =>
      cases meaning with
      | @access _ environment _ provided =>
        have built := continuation_authored.applyTo environment
        refine .working (.building built) frames_authored ⟨extra, same, ?_⟩ nofun
        rw [Focus.Authored.built built, add_zero]
        exact count
      | accessNothing => exact .working (.cause _) frames_authored ⟨extra, same, count⟩ nofun
  | due h =>
    cases meaning
    refine scoped_push (.restoring h) (.apply (.constant (Node.authored_ofExit _))) frames_authored
      ⟨extra, same, ?_⟩
    cases h <;> simp only [Frame.scopes, Focus.drops, Node.drops, Node.andThen] at count ⊢ <;> omega
  | restoring h =>
    cases h with
    | restoreStatus status =>
      cases meaning
      exact .working (.value .unit) frames_authored ⟨extra, same, count⟩ nofun
    | leaveScope =>
      cases meaning
      -- The effect that drops an environment finds one that its region has added.
      cases extra with
      | nil =>
        simp only [Node.drops, List.length_nil] at count
        omega
      | cons environment extra =>
        refine .working (.value .unit) frames_authored ⟨extra, congrArg List.tail same, ?_⟩ nofun
        simp only [Node.drops, Focus.drops, List.length_cons] at count ⊢
        omega

theorem unwind_append {inner stack rest : List (Frame σ)} {handler : Handler σ}
    (found : unwind (inner ++ stack) = some (handler, rest)) :
    (∃ (dropped : List (Continuation σ)) (inner' : List (Frame σ)),
        inner = dropped.map .apply ++ .fold handler :: inner' ∧ rest = inner' ++ stack) ∨
      ∃ dropped : List (Continuation σ), inner = dropped.map .apply := by
  cases whole : unwind inner with
  | none => exact .inr (unwind_eq_none_iff.mp whole)
  | some pair =>
    obtain ⟨handler', inner'⟩ := pair
    obtain ⟨dropped, rfl⟩ := unwind_eq_some_iff.mp whole
    have found' : unwind (dropped.map .apply ++ .fold handler' :: (inner' ++ stack)) =
        some (handler', inner' ++ stack) := unwind_eq_some_iff.mpr ⟨dropped, rfl⟩
    rw [List.append_assoc, List.cons_append, found'] at found
    obtain ⟨rfl, rfl⟩ := Prod.mk.inj (Option.some.inj found)
    exact .inl ⟨dropped, inner', rfl, rfl⟩

/-- A cause finds a handler among the frames of authored effects, or nothing takes it there. -/
theorem scoped_of_handled {cause : Cause} {inner rest : List (Frame σ)} {handler : Handler σ}
    {holding : Holding} (found : unwind (inner ++ stack) = some (handler, rest))
    (inside : ¬Place.Reaches stack (.active (.cause cause) (inner ++ stack)) (.failure cause))
    (frames_authored : ∀ frame ∈ inner, frame.Authored)
    (above : holding.Above outer (scopesOf inner + missed)) :
    Scoped stack outer missed
      ⟨.active (.building (handler.recover cause)) rest, holding, false⟩ := by
  rcases unwind_append found with ⟨dropped, inner', rfl, rfl⟩ | ⟨dropped, rfl⟩
  · obtain ⟨handler_authored, frames_authored⟩ :=
      List.forall_mem_cons.mp (List.forall_mem_append.mp frames_authored).2
    obtain ⟨built, drops⟩ := handler_authored.receive (.failure cause)
    refine .working built frames_authored ?_ nofun
    rw [scopesOf_append, scopesOf_apply, scopesOf_cons, zero_add, ← drops] at above
    rw [add_comm (scopesOf inner')]
    exact above
  · exact absurd (.cause cause dropped) inside

theorem scoped_of_delivered {value : Erased} {frame : Frame σ} {inner : List (Frame σ)}
    {holding : Holding} (frame_authored : frame.Authored)
    (frames_authored : ∀ frame ∈ inner, frame.Authored)
    (above : holding.Above outer (frame.scopes + scopesOf inner + missed)) :
    Scoped stack outer missed
      ⟨.active (.building (frame.resume value)) (inner ++ stack), holding, false⟩ := by
  rw [add_comm frame.scopes] at above
  cases frame with
  | fold handler =>
    obtain ⟨built, drops⟩ := frame_authored.receive (.success value)
    rw [← drops] at above
    exact .working built frames_authored above nofun
  | apply continuation =>
    cases frame_authored with
    | apply h =>
      have built : ((Frame.apply continuation).resume value).Yields Node.Authored := h.applyTo value
      refine .working (.building built) frames_authored ?_ nofun
      rw [Focus.Authored.built built]
      exact above

/-- A step in which no interruption takes effect misses nothing. -/
theorem Step.scoped_of_working {focus : Focus σ} {inner : List (Frame σ)} {holding : Holding}
    {calling : Bool} {input : Option (Input σ)}
    (step : Step ⟨.active focus (inner ++ stack), holding, calling⟩ input after)
    (calm : ¬Interrupted ⟨.active focus (inner ++ stack), holding, calling⟩ after)
    (inside : ∀ exit, ¬Place.Reaches stack (.active focus (inner ++ stack)) exit)
    (focus_authored : focus.Authored) (frames_authored : ∀ frame ∈ inner, frame.Authored)
    (above : holding.Above outer (scopesOf inner + focus.drops + missed))
    (quiet : calling = true → focus.drops = 0) : after.Scoped stack outer missed := by
  -- The frames of a step are a variable here, so that a step can be taken apart.
  generalize whole : inner ++ stack = frames at step calm inside
  cases step with
  | interrupted due => exact absurd ⟨finalizing_of_due due, rfl⟩ calm
  | interpreted undue meaning =>
    exact scoped_of_interpreted focus_authored frames_authored above (whole ▸ meaning)
  | @delivered value frame rest =>
    cases inner with
    | nil =>
      cases whole
      exact absurd (.value value) (inside _)
    | cons first inner =>
      obtain ⟨rfl, rfl⟩ := List.cons.inj whole
      obtain ⟨frame_authored, frames_authored⟩ := List.forall_mem_cons.mp frames_authored
      exact scoped_of_delivered frame_authored frames_authored above
  | handled found =>
    subst whole
    exact scoped_of_handled found (inside _) frames_authored above
  | ended ended =>
    subst whole
    cases ended with
    | thunk value => exact .working (.value value) frames_authored above nofun
    | raising cause => exact .working (.cause cause) frames_authored above nofun
    | building next =>
      cases focus_authored with
      | building h =>
        exact .working (.node (Action.yields_done_iff.mp h)) frames_authored above nofun
      | ending h exit => exact .working (.due h exit) frames_authored above nofun
  | answered answered =>
    subst whole
    cases answered with
    | thunk next => exact .working (.thunk _) frames_authored above fun _ => rfl
    | raising next => exact .working (.raising _) frames_authored above fun _ => rfl
    | registering next => exact .working (.registering _ _) frames_authored above fun _ => rfl
    | building next =>
      cases focus_authored with
      | ending => cases next
      | building h =>
        have built := h.answered next
        rw [Focus.Authored.built h] at above
        refine .working (.building built) frames_authored ?_ fun _ => Focus.Authored.built built
        rw [Focus.Authored.built built]
        exact above
  | panicked panics caught =>
    subst whole
    cases panics <;> cases caught
    case building.refl =>
      exact .working (.node (Node.authored_failNow _)) frames_authored above nofun
    all_goals exact .working (.cause _) frames_authored above nofun
  | refused caught =>
    subst whole
    rw [quiet rfl] at above
    cases focus <;> cases caught
    case building.refl =>
      exact .working (.node (Node.authored_failNow _)) frames_authored above nofun
    all_goals exact .working (.cause _) frames_authored above nofun
  | met =>
    subst whole
    exact .working (.value _) frames_authored above nofun
  | parked =>
    subst whole
    exact .suspended frames_authored above

/-- A step in which an interruption takes effect misses what the effect at hand was to drop. -/
theorem scoped_of_interrupted {current : Node σ} {inner : List (Frame σ)} {holding : Holding}
    (frames_authored : ∀ frame ∈ inner, frame.Authored)
    (above : holding.Above outer (scopesOf inner + current.drops + missed)) :
    Scoped stack outer (missed + current.drops)
      ⟨.active (.node (.failNow .interrupt)) (.apply (.constant current) :: (inner ++ stack)),
        holding.beginFinalizing, false⟩ := by
  refine .cancelled (.polling _ _ rfl) frames_authored ?_
  rw [add_assoc, add_comm current.drops] at above
  exact above

/-- An interruption on its way down drops no environment and misses none. -/
theorem Step.scoped_of_cancelled {current : Node σ} {inner : List (Frame σ)}
    {input : Option (Input σ)} (step : before.Step input after)
    (cancelled : before.Cancelled current (inner ++ stack))
    (inside : ∀ exit, ¬before.place.Reaches stack exit)
    (frames_authored : ∀ frame ∈ inner, frame.Authored)
    (above : before.holding.Above outer (scopesOf inner + missed)) :
    after.Scoped stack outer missed := by
  cases cancelled with
  | polling holding calling late =>
    cases step.interprets (shouldInterrupt_of_finalizing late)
    exact .cancelled (.raising _) frames_authored above
  | raising holding =>
    obtain ⟨-, rfl⟩ := step.of_raised
    exact .cancelled (.raised _ _) frames_authored above
  | raised holding calling =>
    obtain ⟨handler, rest, found, -, rfl⟩ := step.of_cause
    refine scoped_of_handled found (fun reaches => ?_) frames_authored above
    exact inside _ (reaches.push _)

/-- An interruption takes effect where an environment was about to be dropped. -/
def Misses (before after : Strand σ) : Prop :=
  Interrupted before after ∧
    ∃ current stack, before.place = .active (.node current) stack ∧ current.EndsScope

theorem Scoped.asked {place : Place σ} {holding asked : Holding} {calling : Bool}
    (h : Scoped stack outer missed ⟨place, holding, calling⟩)
    (request : asked = holding ∨ asked = holding.request) :
    Scoped stack outer missed ⟨place, asked, calling⟩ := by
  rcases request with rfl | rfl
  · exact h
  · cases h with
    | working focus frames above quiet => exact .working focus frames above quiet
    | suspended frames above => exact .suspended frames above
    | @cancelled current inner _ cancelled frames above =>
      have same : Cancelled current (inner ++ stack) ⟨place, holding.request, calling⟩ := by
        cases cancelled with
        | polling _ _ late => exact .polling _ _ late
        | raising => exact .raising _
        | raised => exact .raised _ _
      exact .cancelled same frames above

theorem Step.keeps_scope {input : Option (Input σ)} (step : before.Step input after)
    (h : before.Scoped stack outer missed) (inside : ∀ exit, ¬before.place.Reaches stack exit) :
    (¬Misses before after ∧ after.Scoped stack outer missed) ∨
      (Misses before after ∧ after.Scoped stack outer (missed + 1)) := by
  -- Only an interruption that takes effect can miss anything.
  by_cases interrupted : Interrupted before after
  · rcases step.finalizing with same | ⟨current, frames, place, due, rfl⟩
    · cases same.symm.trans interrupted.2 |>.symm.trans interrupted.1
    · obtain ⟨_, holding, calling⟩ := before
      subst place
      cases h with
      | cancelled cancelled =>
        cases cancelled with
        | polling _ _ late => cases (shouldInterrupt_of_finalizing late).symm.trans due
      | working focus frames above quiet =>
        by_cases ends : current.EndsScope
        · refine .inr ⟨⟨interrupted, _, _, rfl, ends⟩, ?_⟩
          rw [← ends.drops]
          exact scoped_of_interrupted frames above
        · refine .inl ⟨?_, ?_⟩
          · rintro ⟨-, other, _, same, ends'⟩
            cases same
            exact ends ends'
          · have drops := Node.drops_eq_zero ends
            rw [← add_zero missed, ← drops]
            exact scoped_of_interrupted frames above
  · refine .inl ⟨fun misses => interrupted misses.1, ?_⟩
    cases h with
    | working focus frames above quiet =>
      exact step.scoped_of_working interrupted inside focus frames above quiet
    | cancelled cancelled frames above =>
      exact step.scoped_of_cancelled cancelled inside frames above
    | suspended frames above =>
      cases step with
      | resumed => exact .working (.node (.succeed _)) frames above nofun

theorem Moves.keeps_scope (moves : before.Moves after) (h : before.Scoped stack outer missed)
    (inside : ∀ exit, ¬before.place.Reaches stack exit) :
    (¬Misses before after ∧ after.Scoped stack outer missed) ∨
      (Misses before after ∧ after.Scoped stack outer (missed + 1)) := by
  obtain ⟨place, holding, calling⟩ := before
  rcases moves.waits_or_steps with ⟨asked, rfl, request⟩ | ⟨asked, input, request, step⟩
  · refine .inl ⟨?_, h.asked request⟩
    rintro ⟨⟨fresh, late⟩, _⟩
    cases (finalizing_of_asked request).symm.trans late |>.symm.trans fresh
  · have misses :
        Misses ⟨place, asked, calling⟩ after ↔ Misses ⟨place, holding, calling⟩ after := by
      unfold Misses Interrupted
      rw [finalizing_of_asked request]
    rw [← misses]
    exact step.keeps_scope (h.asked request) inside

/-! ### Stretches -/

theorem Stretch.keeps_scope {strands : Nat → Strand σ} {first last : Nat}
    (stretch : Stretch strands first last) (le : first ≤ last)
    (h : (strands first).Scoped stack outer 0)
    (inside : ∀ n, first ≤ n → n < last → ∀ exit, ¬(strands n).place.Reaches stack exit) :
    ∃ missed, (strands last).Scoped stack outer missed ∧
      (missed = 0 ↔ ∀ n, first ≤ n → n < last → ¬Misses (strands n) (strands (n + 1))) := by
  induction last, le using Nat.le_induction with
  | base => exact ⟨0, h, iff_of_true rfl fun n low high => by omega⟩
  | succ last le ih =>
    obtain ⟨missed, scope, none⟩ := ih (stretch.mono le_rfl (Nat.le_succ last))
      fun n low high => inside n low (Nat.lt_succ_of_lt high)
    have moves := stretch last le (Nat.lt_succ_self last)
    rcases moves.keeps_scope scope (inside last le (Nat.lt_succ_self last)) with
      ⟨kept, scope'⟩ | ⟨misses, scope'⟩
    · refine ⟨missed, scope', none.trans ⟨fun early n low high => ?_, fun all n low high =>
        all n low (Nat.lt_succ_of_lt high)⟩⟩
      rcases Nat.lt_succ_iff_lt_or_eq.mp high with lt | rfl
      · exact early n low lt
      · exact kept
    · refine ⟨missed + 1, scope', iff_of_false (Nat.succ_ne_zero missed) fun all => ?_⟩
      exact all last le (Nat.lt_succ_self last) misses

theorem scopesOf_of_reaches {focus : Focus σ} {inner : List (Frame σ)} {exit : Exit Erased}
    (reaches : Place.Reaches stack (.active focus (inner ++ stack)) exit) :
    scopesOf inner + focus.drops = 0 := by
  generalize whole : inner ++ stack = frames at reaches
  cases reaches with
  | value =>
    rw [List.append_left_eq_self.mp whole]
    rfl
  | cause cause dropped =>
    rw [List.append_cancel_right whole, scopesOf_apply]
    rfl

/-- A fiber that has left all scopes has only those environments too many that it missed to drop. -/
theorem Scoped.environments_iff {strand : Strand σ} {exit : Exit Erased}
    (h : strand.Scoped stack outer missed) (reaches : strand.place.Reaches stack exit) :
    strand.holding.environments = outer ↔ missed = 0 := by
  have above : strand.holding.Above outer missed := by
    cases h with
    | working focus frames above =>
      rwa [scopesOf_of_reaches reaches, zero_add] at above
    | suspended => cases reaches
    | @cancelled current inner _ cancelled frames above =>
      have zero : scopesOf inner = 0 := by
        cases cancelled with
        | polling | raising => cases reaches
        | raised =>
          have reaches' : Place.Reaches stack
            (.active (.cause .interrupt) (.apply (.constant current) :: inner ++ stack)) exit :=
            reaches
          have none := scopesOf_of_reaches reaches'
          rw [scopesOf_cons] at none
          omega
      rwa [zero, zero_add] at above
  obtain ⟨extra, same, count⟩ := above
  rw [same, List.append_left_eq_self, ← List.length_eq_zero_iff, count]

/-- An effect is left with the environments that it was begun with, exactly if no interruption takes
effect where an environment is about to be dropped. -/
theorem Stretch.environments_iff {strands : Nat → Strand σ} {first last : Nat} {effect : Node σ}
    {holding : Holding} {calling : Bool} {exit : Exit Erased} (authored : effect.Authored)
    (begins : strands first = ⟨.active (.node effect) stack, holding, calling⟩)
    (stretch : Stretch strands first last) (leaves : Leaves strands first last stack exit) :
    (strands last).holding.environments = holding.environments ↔
      ∀ n, first ≤ n → n < last → ¬Misses (strands n) (strands (n + 1)) := by
  have start : (strands first).Scoped stack holding.environments 0 := by
    rw [begins]
    have above : holding.Above holding.environments
        (scopesOf ([] : List (Frame σ)) + effect.drops + 0) :=
        ⟨[], rfl, by rw [authored.drops]; rfl⟩
    exact .working (.node authored) (List.forall_mem_nil _) above fun _ => authored.drops
  obtain ⟨missed, scope, none⟩ := stretch.keeps_scope leaves.le start leaves.inside
  exact (scope.environments_iff leaves.reaches).trans none

end Strand

end Fibers
