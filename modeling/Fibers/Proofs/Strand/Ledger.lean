import Fibers.Proofs.Strand.Frames
import Mathlib.Data.List.Perm.Basic
import Mathlib.Data.List.Range

/-!
# A ledger of frames

What a fiber does with its frames can be written down as entries: one for each frame that it pushes,
one for each frame that is used. A `Ledger` is what the entries come to. It numbers the frames as
they are pushed and keeps those that are not used yet, the newest first, beside those that were used
and the use of each.

## Main results

`Ledger.sound_book`: on books that balance, every frame ever pushed stands exactly once, unused or
used, and a use suits its frame. `Ledger.Tells.moves`: whatever a fiber does in one move, the books
balance and tell the frames on its stack. `Ledger.Tells.ends`: they are empty once it has ended.

## Proof strategy

An entry for a use can only be booked for the newest frame. What a fiber does with several frames at
once is the unwinding of plain frames, so that is one induction (`Ledger.exists_unwound`). A pending
effect is never run because an interruption keeps its fiber `Cancelled` from the moment it takes
effect until the cause passes the frame.
-/

namespace Fibers

variable {σ : Type}

/-- What becomes of a frame that is off the stack. -/
inductive Use where
  /-- It runs on a value. -/
  | applied (value : Erased)
  /-- It runs on a cause. -/
  | given (cause : Cause)
  /-- It never runs. -/
  | discarded

/-- One thing that happens to the frames of a fiber. -/
inductive Entry (σ : Type) where
  /-- A frame is pushed; it may hold the effect that an interruption took the place of. -/
  | pushed (frame : Frame σ) (pending : Bool)
  /-- The topmost frame leaves the stack. -/
  | used (use : Use)

/-- A frame on the books. -/
structure Slip (σ : Type) where
  /-- How many frames the fiber had pushed before this one. -/
  serial : Nat
  frame : Frame σ
  /-- Whether the frame holds the effect that an interruption took the place of. -/
  pending : Bool

/-- Whether a frame is the handler of a fold. -/
def Frame.isFold : Frame σ → Bool
  | .apply _ => false
  | .fold _ => true

/-- Whether a frame may be used in some way: only a fold takes a cause, no fold is passed over, and
a pending effect never runs. -/
def Use.suits (slip : Slip σ) : Use → Bool
  | .applied _ => !slip.pending
  | .given _ => slip.frame.isFold && !slip.pending
  | .discarded => !slip.frame.isFold

/-- What the entries of a fiber come to. -/
structure Ledger (σ : Type) where
  /-- How many frames were pushed. -/
  made : Nat := 0
  /-- The frames that are not used yet, the newest first. -/
  held : List (Slip σ) := []
  /-- The frames that were used, the last one first, with their uses. -/
  closed : List (Slip σ × Use) := []

namespace Ledger

/-- Book an entry. A use is that of the newest frame and has to suit it. -/
def post (ledger : Ledger σ) : Entry σ → Option (Ledger σ)
  | .pushed frame pending =>
    some { ledger with
      made := ledger.made + 1
      held := ⟨ledger.made, frame, pending⟩ :: ledger.held }
  | .used use =>
    match ledger.held with
    | [] => none
    | slip :: held =>
      if use.suits slip then
        some { ledger with held := held, closed := (slip, use) :: ledger.closed }
      else none

/-- Book entries one after another, if they balance. -/
def book (ledger : Ledger σ) (entries : List (Entry σ)) : Option (Ledger σ) :=
  entries.foldlM post ledger

/-- The frames that are not used yet. -/
def frames (ledger : Ledger σ) : List (Frame σ) := ledger.held.map Slip.frame

/-- The numbers of all frames on the books. -/
def serials (ledger : Ledger σ) : List Nat :=
  (ledger.held ++ ledger.closed.map Prod.fst).map Slip.serial

/-- The books are in order. -/
structure Sound (ledger : Ledger σ) : Prop where
  /-- Every frame that was pushed is on the books exactly once: unused, or used in one way. -/
  once : ledger.serials.Perm (List.range ledger.made)
  /-- The frames that are not used yet are in the order in which they were pushed. -/
  newest : (ledger.held.map Slip.serial).Pairwise (· > ·)
  suits : ∀ entry ∈ ledger.closed, entry.2.suits entry.1 = true

variable {ledger ledger' : Ledger σ}

theorem book_nil (ledger : Ledger σ) : ledger.book [] = some ledger := rfl

theorem book_cons (ledger : Ledger σ) (entry : Entry σ) (entries : List (Entry σ)) :
    ledger.book (entry :: entries) = (ledger.post entry).bind fun next => next.book entries := rfl

theorem book_append (ledger : Ledger σ) (entries later : List (Entry σ)) :
    ledger.book (entries ++ later) = (ledger.book entries).bind fun next => next.book later :=
  List.foldlM_append

/-! ### Sound books -/

theorem sound_empty : ({} : Ledger σ).Sound := ⟨.refl _, .nil, nofun⟩

theorem sound_post {entry : Entry σ} (sound : ledger.Sound)
    (posted : ledger.post entry = some ledger') : ledger'.Sound := by
  obtain ⟨once, newest, suits⟩ := sound
  cases entry with
  | pushed frame pending =>
    cases posted
    refine ⟨?_, ?_, suits⟩
    -- The new serial is the next one, so all serials below the count are there once.
    · change (ledger.made :: ledger.serials).Perm (List.range (ledger.made + 1))
      rw [List.range_succ]
      exact (once.cons ledger.made).trans (List.perm_append_singleton _ _).symm
    · refine List.pairwise_cons.mpr ⟨fun serial mem => ?_, newest⟩
      have listed : serial ∈ ledger.serials := by
        rw [serials, List.map_append]
        exact List.mem_append_left _ mem
      exact List.mem_range.mp (once.mem_iff.mp listed)
  | used use =>
    obtain ⟨made, held, closed⟩ := ledger
    cases held with
    | nil => cases posted
    | cons slip held =>
      simp only [post] at posted
      split at posted
      next fits =>
        cases posted
        refine ⟨.trans ?_ once, (List.pairwise_cons.mp newest).2, ?_⟩
        · simp only [serials, List.map_append, List.map_cons, List.cons_append]
          exact List.perm_middle
        · rintro entry mem
          rcases List.mem_cons.mp mem with rfl | mem
          · exact fits
          · exact suits entry mem
      next => cases posted

/-- Books that balance are in order. -/
theorem sound_book {entries : List (Entry σ)} (sound : ledger.Sound)
    (booked : ledger.book entries = some ledger') : ledger'.Sound := by
  induction entries generalizing ledger with
  | nil =>
    cases booked
    exact sound
  | cons entry entries ih =>
    rw [book_cons] at booked
    obtain ⟨next, posted, booked⟩ := Option.bind_eq_some_iff.mp booked
    exact ih (sound_post sound posted) booked

/-! ### Unwinding -/

/-- Plain frames that a cause passes are discarded. -/
theorem exists_unwound {dropped : List (Continuation σ)} {stack : List (Frame σ)}
    (frames : ledger.frames = dropped.map .apply ++ stack) :
    ∃ ledger', ledger.book (dropped.map fun _ => .used .discarded) = some ledger' ∧
      ledger'.held = ledger.held.drop dropped.length ∧ ledger'.frames = stack := by
  induction dropped generalizing ledger with
  | nil => exact ⟨ledger, rfl, rfl, frames⟩
  | cons continuation dropped ih =>
    obtain ⟨made, held, closed⟩ := ledger
    cases held with
    | nil => cases frames
    | cons slip held =>
      obtain ⟨own, frames⟩ := List.cons.inj frames
      have fits : Use.discarded.suits slip = true := by
        rw [Use.suits, own]
        rfl
      have others : Ledger.frames ⟨made, held, (slip, .discarded) :: closed⟩ =
          dropped.map .apply ++ stack := frames
      obtain ⟨ledger', booked, left, frames'⟩ := ih others
      refine ⟨ledger', ?_, left, frames'⟩
      rw [List.map_cons, book_cons]
      simp only [post, fits, if_true, Option.bind_some]
      exact booked

end Ledger

/-! ### What a move does to the frames -/

/-- The effect that an effect runs first, and the frame that it leaves below. -/
def Node.entered? (status : InterruptStatus) : Node σ → Option (Node σ × Frame σ)
  | .flatMap effect continuation => some (effect, .apply continuation)
  | .fold effect handler => some (effect, .fold handler)
  | .withStatus effect _ => some (effect, .fold (.finalizer (.restoreStatus status)))
  | .provide effect _ => some (effect, .fold (.finalizer .leaveScope))
  | _ => none

/-- Code that builds an effect is under way for no new frame: it was before, or an environment was
read. -/
inductive Place.Builds : Place σ → Code σ (Node σ) → Prop where
  | still (code : Code σ (Node σ)) (stack : List (Frame σ)) :
      Builds (.active (.building code) stack) code
  | answered {code rest : Code σ (Node σ)} {answer : Answer σ}
      (next : code.answered answer = some rest) (stack : List (Frame σ)) :
      Builds (.active (.building code) stack) rest
  | read (continuation : Continuation σ) (environment : Erased) (stack : List (Frame σ)) :
      Builds (.active (.node (.access continuation)) stack) (continuation.applyTo environment)

/-- What becomes of the frames of a fiber that goes from one place to the next. -/
inductive Place.Deals (status : InterruptStatus) (interrupted : Prop) :
    Place σ → Place σ → List (Entry σ) → Prop where
  /-- An effect runs another one first and leaves a frame for it. -/
  | entered {current inner : Node σ} {frame : Frame σ} (stack : List (Frame σ))
      (enters : current.entered? status = some (inner, frame)) (calm : ¬interrupted) :
      Deals status interrupted (.active (.node current) stack)
        (.active (.node inner) (frame :: stack)) [.pushed frame false]
  /-- An interruption takes the place of an effect, which is left in a frame. -/
  | replaced (current : Node σ) (stack : List (Frame σ)) (now : interrupted) :
      Deals status interrupted (.active (.node current) stack)
        (.active (.node (.failNow .interrupt)) (.apply (.constant current) :: stack))
        [.pushed (.apply (.constant current)) true]
  /-- The topmost frame runs on a value. -/
  | applied (value : Erased) (frame : Frame σ) (stack : List (Frame σ)) :
      Deals status interrupted (.active (.value value) (frame :: stack))
        (.active (.building (frame.resume value)) stack) [.used (.applied value)]
  /-- The innermost handler runs on a cause; the plain frames above it do not run. -/
  | given (cause : Cause) (dropped : List (Continuation σ)) (handler : Handler σ)
      (stack : List (Frame σ)) :
      Deals status interrupted
        (.active (.cause cause) (dropped.map .apply ++ .fold handler :: stack))
        (.active (.building (handler.recover cause)) stack)
        ((dropped.map fun _ => .used .discarded) ++ [.used (.given cause)])
  /-- The frames stay as they are, wherever the fiber goes, and none of them runs. -/
  | carried {before after : Place σ} (same : after.stack = before.stack)
      (builds : ∀ code stack, after = .active (.building code) stack → before.Builds code) :
      Deals status interrupted before after []

/-- How many frames a cause passes is seen from what is left of the stack. -/
theorem discards_unique {dropped dropped' : List (Continuation σ)} {handler handler' : Handler σ}
    {stack : List (Frame σ)} (same : dropped.map .apply ++ .fold handler :: stack =
      dropped'.map .apply ++ .fold handler' :: stack) (use : Use) :
    (dropped.map fun _ => (.used use : Entry σ)) = dropped'.map fun _ => .used use := by
  have count := congrArg List.length same
  simp only [List.length_append, List.length_map, List.length_cons] at count
  rw [List.map_const', List.map_const', Nat.add_right_cancel count]

/-- What becomes of the frames is read off the places. -/
theorem Place.Deals.unique {status : InterruptStatus} {interrupted : Prop} {before after : Place σ}
    {entries entries' : List (Entry σ)} (deals : before.Deals status interrupted after entries)
    (deals' : before.Deals status interrupted after entries') : entries = entries' := by
  cases deals with
  | @entered current inner frame stack enters calm =>
    cases deals' with
    | entered => rfl
    | replaced _ _ now => exact absurd now calm
    | carried same => exact absurd same (List.cons_ne_self _ _)
  | replaced current stack now =>
    cases deals' with
    | entered _ _ calm => exact absurd now calm
    | replaced => rfl
    | carried same => exact absurd same (List.cons_ne_self _ _)
  | applied value frame stack =>
    cases deals' with
    | applied => rfl
    | carried same => exact absurd same.symm (List.cons_ne_self _ _)
  | given cause dropped handler stack =>
    generalize whole : dropped.map Frame.apply ++ .fold handler :: stack = pile at deals'
    generalize code : handler.recover cause = code' at deals'
    cases deals' with
    | given _ dropped' handler' => rw [discards_unique whole]
    | carried same => exact absurd (same.trans whole.symm) (ne_append_cons _ _ _)
  | carried same builds =>
    cases deals' with
    | entered | replaced => exact absurd same (List.cons_ne_self _ _)
    | applied => exact absurd same.symm (List.cons_ne_self _ _)
    | given => exact absurd same (ne_append_cons _ _ _)
    | carried => rfl

namespace Ledger

open Strand

variable {ledger : Ledger σ} {before after : Strand σ}

/-- The books of a fiber tell its frames. A pending effect is on top, if at all, while the
interruption that took its place is on its way. -/
structure Tells (ledger : Ledger σ) (strand : Strand σ) : Prop where
  frames : ledger.frames = strand.place.stack
  pending : (∀ slip ∈ ledger.held, slip.pending = false) ∨
    ∃ current stack, strand.Cancelled current stack ∧
      ∀ slip ∈ ledger.held.tail, slip.pending = false

theorem tells_of_clear (frames : ledger.frames = before.place.stack)
    (clear : ∀ slip ∈ ledger.held, slip.pending = false) : ledger.Tells before :=
  ⟨frames, .inl clear⟩

/-- The books go on with what a fiber does to its frames. -/
def Covers (ledger : Ledger σ) (before after : Strand σ) : Prop :=
  ∃ entries ledger',
    before.place.Deals before.holding.flags.status (Interrupted before after) after.place entries ∧
      ledger.book entries = some ledger' ∧ ledger'.Tells after

/-- Where nothing happens to the frames, nothing is booked. -/
theorem covers_of_carried (tells : ledger.Tells after)
    (same : after.place.stack = before.place.stack)
    (builds : ∀ code stack, after.place = .active (.building code) stack →
      before.place.Builds code) : ledger.Covers before after :=
  ⟨[], ledger, .carried same builds, rfl, tells⟩

/-- A fiber that stays where it is keeps its frames. -/
theorem covers_of_still (tells : ledger.Tells after) (same : after.place = before.place) :
    ledger.Covers before after := by
  refine covers_of_carried tells (congrArg Place.stack same) ?_
  intro code stack building
  rw [← same, building]
  exact .still code stack

/-- A frame is pushed that is not pending. -/
theorem covers_of_entered {current inner : Node σ} {frame : Frame σ} {stack : List (Frame σ)}
    {holding holding' : Holding} {calling calling' : Bool} {status : InterruptStatus}
    (frames : ledger.frames = stack) (clear : ∀ slip ∈ ledger.held, slip.pending = false)
    (enters : current.entered? status = some (inner, frame))
    (own : status = holding.flags.status)
    (calm : holding'.flags.finalizing = holding.flags.finalizing) :
    ledger.Covers ⟨.active (.node current) stack, holding, calling⟩
      ⟨.active (.node inner) (frame :: stack), holding', calling'⟩ := by
  subst own
  refine ⟨_, _, .entered stack enters ?_, rfl, tells_of_clear (congrArg _ frames) ?_⟩
  · rintro ⟨fresh, late⟩
    cases fresh.symm.trans (calm.symm.trans late)
  · intro slip mem
    rcases List.mem_cons.mp mem with rfl | mem
    · rfl
    · exact clear slip mem

/-- The innermost handler runs on a cause if it is not pending, as no handler is. -/
theorem covers_of_handled {cause : Cause} {dropped : List (Continuation σ)} {handler : Handler σ}
    {stack : List (Frame σ)} {holding holding' : Holding} {calling calling' : Bool}
    (frames : ledger.frames = dropped.map .apply ++ .fold handler :: stack)
    (clear : ∀ slip ∈ ledger.held.drop dropped.length, slip.pending = false) :
    ledger.Covers ⟨.active (.cause cause) (dropped.map .apply ++ .fold handler :: stack), holding,
      calling⟩ ⟨.active (.building (handler.recover cause)) stack, holding', calling'⟩ := by
  obtain ⟨⟨made, held, closed⟩, booked, left, frames'⟩ := exists_unwound frames
  rw [← left] at clear
  cases held with
  | nil => cases frames'
  | cons slip held =>
    obtain ⟨own, frames'⟩ := List.cons.inj frames'
    have fits : (Use.given cause).suits slip = true := by
      rw [Use.suits, own, clear slip List.mem_cons_self]
      rfl
    refine ⟨_, ⟨made, held, (slip, .given cause) :: closed⟩, .given cause dropped handler stack, ?_,
      tells_of_clear frames' fun slip mem => clear slip (List.mem_cons_of_mem _ mem)⟩
    rw [book_append, booked, Option.bind_some, book_cons]
    simp only [post, fits, if_true, Option.bind_some, book_nil]

/-- An interruption that is on its way takes the pending effect off without running it. -/
theorem covers_of_cancelled {current : Node σ} {stack : List (Frame σ)}
    (frames : ledger.frames = before.place.stack) (cancelled : before.Cancelled current stack)
    (clear : ∀ slip ∈ ledger.held.tail, slip.pending = false) (moves : before.Moves after) :
    ledger.Covers before after := by
  have onward (inside : ∀ exit, ¬before.place.Reaches stack exit) : ledger.Covers before after := by
    have cancelled' := cancelled.moves moves inside
    have same : after.place.stack = before.place.stack := by
      cases cancelled <;> cases cancelled' <;> rfl
    refine covers_of_carried ⟨frames.trans same.symm, .inr ⟨_, _, cancelled', clear⟩⟩ same ?_
    intro code stack building
    cases cancelled' <;> cases building
  cases cancelled with
  | polling holding calling late => exact onward (by rintro exit ⟨⟩)
  | raising holding => exact onward (by rintro exit ⟨⟩)
  | raised holding calling =>
    rcases moves.waits_or_steps with ⟨holding', rfl, _⟩ | ⟨holding', input, _, step⟩
    · exact covers_of_still ⟨frames, .inr ⟨_, _, .raised holding' calling, clear⟩⟩ rfl
    · -- The pending effect is a plain frame, so the cause passes it.
      obtain ⟨handler, rest, found, -, rfl⟩ := step.of_cause
      obtain ⟨dropped, whole⟩ := unwind_eq_some_iff.mp found
      rw [whole] at frames ⊢
      refine covers_of_handled frames ?_
      cases dropped with
      | nil => cases whole
      | cons first dropped =>
        intro slip mem
        rw [List.length_cons, ← List.drop_tail] at mem
        exact clear slip (List.mem_of_mem_drop mem)

/-- A node is interpreted: it may leave a frame below, and no frame runs. -/
theorem covers_of_interpreted {current : Node σ} {stack : List (Frame σ)}
    {holding asked : Holding} {calling : Bool} {input : Option (Input σ)}
    (frames : ledger.frames = stack) (clear : ∀ slip ∈ ledger.held, slip.pending = false)
    (request : asked = holding ∨ asked = holding.request)
    (meaning : current.Interprets stack asked input after) :
    ledger.Covers ⟨.active (.node current) stack, holding, calling⟩ after := by
  have status : asked.flags.status = holding.flags.status := by
    rcases request with rfl | rfl <;> rfl
  have calm := finalizing_of_asked request
  cases meaning with
  | flatMap | fold | withStatus | provide => exact covers_of_entered frames clear rfl status calm
  | @access continuation environment outer provided =>
    refine covers_of_carried (tells_of_clear frames clear) rfl ?_
    rintro code rest ⟨⟩
    exact .read continuation environment stack
  | _ =>
    refine covers_of_carried (tells_of_clear frames clear) rfl ?_
    rintro code rest ⟨⟩

/-- A fiber without a pending effect does one thing to its frames in a step. -/
theorem covers_of_step {place : Place σ} {holding asked : Holding} {calling : Bool}
    {input : Option (Input σ)} (frames : ledger.frames = place.stack)
    (clear : ∀ slip ∈ ledger.held, slip.pending = false)
    (request : asked = holding ∨ asked = holding.request)
    (step : Step ⟨place, asked, calling⟩ input after) :
    ledger.Covers ⟨place, holding, calling⟩ after := by
  have tells {strand : Strand σ} (same : strand.place.stack = place.stack) : ledger.Tells strand :=
    tells_of_clear (frames.trans same.symm) clear
  cases step with
  | @interrupted current stack _ _ due =>
    -- The node is kept behind the interruption, with a frame that is pending.
    have fresh := (finalizing_of_asked request).symm.trans (finalizing_of_due due)
    refine ⟨_, _, .replaced current stack ⟨fresh, rfl⟩, rfl, congrArg _ frames, .inr ?_⟩
    exact ⟨current, stack, .polling _ _ rfl, clear⟩
  | interpreted undue meaning => exact covers_of_interpreted frames clear request meaning
  | @delivered value frame stack =>
    obtain ⟨made, held, closed⟩ := ledger
    cases held with
    | nil => cases frames
    | cons slip held =>
      obtain ⟨own, frames⟩ := List.cons.inj frames
      -- The newest entry is of this very frame, and it is not pending.
      have fits : (Use.applied value).suits slip = true := by
        rw [Use.suits, clear slip List.mem_cons_self]
        rfl
      refine ⟨_, ⟨made, held, (slip, .applied value) :: closed⟩, .applied value frame stack, ?_,
        tells_of_clear frames fun slip mem => clear slip (List.mem_cons_of_mem _ mem)⟩
      rw [book_cons]
      simp only [post, fits, if_true, Option.bind_some, book_nil]
  | handled found =>
    obtain ⟨dropped, rfl⟩ := unwind_eq_some_iff.mp found
    exact covers_of_handled frames fun slip mem => clear slip (List.mem_of_mem_drop mem)
  | answered answered =>
    refine covers_of_carried (tells rfl) rfl ?_
    rintro code stack ⟨⟩
    cases answered with
    | building next => exact .answered next _
  | ended ended =>
    refine covers_of_carried (tells rfl) rfl ?_
    rintro code rest ⟨⟩
    cases ended
  | @panicked focus _ _ _ _ _ _ caught | @refused focus _ _ _ _ caught =>
    refine covers_of_carried (tells rfl) rfl ?_
    rintro code rest ⟨⟩
    cases focus <;> cases caught
  | met | parked | resumed =>
    refine covers_of_carried (tells rfl) rfl ?_
    rintro code rest ⟨⟩

/-- Whatever a fiber does in one move, its books go on with it. -/
theorem Tells.moves (tells : ledger.Tells before) (moves : before.Moves after) :
    ledger.Covers before after := by
  obtain ⟨frames, clear | ⟨current, stack, cancelled, clear⟩⟩ := tells
  · rcases moves.waits_or_steps with ⟨asked, rfl, _⟩ | ⟨asked, input, request, step⟩
    · exact covers_of_still (tells_of_clear frames clear) rfl
    · exact covers_of_step frames clear request step
  · exact covers_of_cancelled frames cancelled clear moves

/-- When a fiber ends, the plain frames that its cause passes are discarded, and none is left. -/
theorem Tells.ends {exit : Exit Erased} (tells : ledger.Tells before)
    (reaches : before.place.Reaches [] exit) :
    ∃ ledger', ledger.book (before.place.stack.map fun _ => .used .discarded) = some ledger' ∧
      ledger'.held = [] := by
  have frames := tells.frames
  generalize before.place = place at reaches frames
  cases reaches with
  | value value => exact ⟨ledger, rfl, List.map_eq_nil_iff.mp frames⟩
  | cause cause dropped =>
    obtain ⟨ledger', booked, _, none⟩ := exists_unwound frames
    refine ⟨ledger', ?_, List.map_eq_nil_iff.mp none⟩
    rw [Place.stack, List.append_nil, List.map_map]
    exact booked

end Ledger

end Fibers
