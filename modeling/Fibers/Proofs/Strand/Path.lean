import Fibers.Proofs.Strand.Evaluation
import Fibers.Proofs.Strand.Frames

/-!
# Paths of a fiber

A `Path` is the sequence of steps of a fiber down to a stack, with what reaches it from outside. No
interruption is due on it, and what its steps have in common can be carried along it.

## Main results

`Path.split`: a path that starts above more frames first leads down to them. `Path.code`: what a
path does with user code.
-/

namespace Fibers

variable {σ : Type}

namespace Strand

/-- Steps of any kind. -/
def Anyhow : Strand σ → Option (Input σ) → Strand σ → Prop := fun _ _ _ => True

/-- The steps of a fiber that has not come down to a stack yet, what they take from outside, and how
many they are. All of them are good. -/
inductive Path (good : Strand σ → Option (Input σ) → Strand σ → Prop) (stack : List (Frame σ)) :
    Strand σ → List (Input σ) → Nat → Strand σ → Prop where
  | here (strand : Strand σ) : Path good stack strand [] 0 strand
  | step {before mid after : Strand σ} {input : Option (Input σ)} {inputs : List (Input σ)}
      {count : Nat} (inside : ∀ exit, ¬before.place.Reaches stack exit)
      (undue : before.holding.flags.shouldInterrupt = false) (step : before.Step input mid)
      (fits : good before input mid) (rest : Path good stack mid inputs count after) :
      Path good stack before (input.toList ++ inputs) (count + 1) after

variable {good : Strand σ → Option (Input σ) → Strand σ → Prop} {stack : List (Frame σ)}
  {before after : Strand σ} {inputs : List (Input σ)} {count : Nat}
  {exit : Exit Erased}

/-- A path has ended, or begins with a good step. -/
theorem Path.next_good (path : Path good stack before inputs count after) :
    (inputs = [] ∧ count = 0 ∧ after = before) ∨
      ∃ input mid inputs' count', inputs = input.toList ++ inputs' ∧ count = count' + 1 ∧
        before.holding.flags.shouldInterrupt = false ∧ before.Step input mid ∧
        good before input mid ∧ Path good stack mid inputs' count' after := by
  cases path with
  | here => exact .inl ⟨rfl, rfl, rfl⟩
  | step inside undue step fits rest =>
    exact .inr ⟨_, _, _, _, rfl, rfl, undue, step, fits, rest⟩

/-- A path has ended, or begins with a step. -/
theorem Path.next (path : Path good stack before inputs count after) :
    (inputs = [] ∧ count = 0 ∧ after = before) ∨
      ∃ input mid inputs' count', inputs = input.toList ++ inputs' ∧ count = count' + 1 ∧
        before.holding.flags.shouldInterrupt = false ∧ before.Step input mid ∧
        Path good stack mid inputs' count' after := by
  refine path.next_good.imp_right ?_
  rintro ⟨input, mid, inputs', count', inputs, count, undue, step, _, rest⟩
  exact ⟨input, mid, inputs', count', inputs, count, undue, step, rest⟩

/-- A path that ends at its stack and does not start there begins with a good step. -/
theorem Path.next_good_of_reaches (path : Path good stack before inputs count after)
    (reaches : after.place.Reaches stack exit) (inside : ∀ exit, ¬before.place.Reaches stack exit) :
    ∃ input mid inputs' count', inputs = input.toList ++ inputs' ∧ count = count' + 1 ∧
      before.holding.flags.shouldInterrupt = false ∧ before.Step input mid ∧
      good before input mid ∧ Path good stack mid inputs' count' after := by
  rcases path.next_good with ⟨_, _, rfl⟩ | found
  · exact absurd reaches (inside exit)
  · exact found

/-- A path that ends at its stack and does not start there begins with a step. -/
theorem Path.next_of_reaches (path : Path good stack before inputs count after)
    (reaches : after.place.Reaches stack exit) (inside : ∀ exit, ¬before.place.Reaches stack exit) :
    ∃ input mid inputs' count', inputs = input.toList ++ inputs' ∧ count = count' + 1 ∧
      before.holding.flags.shouldInterrupt = false ∧ before.Step input mid ∧
      Path good stack mid inputs' count' after := by
  rcases path.next with ⟨_, _, rfl⟩ | found
  · exact absurd reaches (inside exit)
  · exact found

/-- A path that starts above more frames leads down to them, or ends above them. -/
theorem Path.split {upper : List (Frame σ)} (path : Path good stack before inputs count after)
    (above : upper <:+ before.place.stack) :
    ∃ mid first second count₁ count₂, inputs = first ++ second ∧ count = count₁ + count₂ ∧
      Path good upper before first count₁ mid ∧ Path good stack mid second count₂ after ∧
      ((∃ exit, mid.place.Reaches upper exit) ∨
        mid = after ∧ upper <:+ after.place.stack ∧ count₂ = 0 ∧
          ∀ exit, ¬after.place.Reaches upper exit) := by
  induction path with
  | here strand =>
    refine ⟨strand, [], [], 0, 0, rfl, rfl, .here strand, .here strand, ?_⟩
    by_cases reached : ∃ exit, strand.place.Reaches upper exit
    · exact .inl reached
    · exact .inr ⟨rfl, above, rfl, not_exists.mp reached⟩
  | @step before mid after input inputs count inside undue step fits rest ih =>
    by_cases reached : ∃ exit, before.place.Reaches upper exit
    · exact ⟨before, [], _, 0, _, rfl, (Nat.zero_add _).symm, .here before,
        .step inside undue step fits rest, .inl reached⟩
    · have unreached := not_exists.mp reached
      obtain ⟨mid', first, second, count₁, count₂, rfl, rfl, path, path', ends⟩ :=
        ih (step.above above unreached)
      exact ⟨mid', input.toList ++ first, second, count₁ + 1, count₂,
        (List.append_assoc _ _ _).symm, by omega, .step unreached undue step fits path, path',
        ends⟩

/-! ### User code -/

/-- A focus that runs user code, and where a panic of the code leads. -/
structure CodeFocus {α : Type} (focus : Code σ α → Focus σ) (fault : Payload → Focus σ) : Prop where
  next : ∀ {code : Code σ α} {frames : List (Frame σ)} {holding : Holding} {calling : Bool}
    {input : Option (Input σ)} {after : Strand σ},
    Step ⟨.active (focus code) frames, holding, calling⟩ input after →
      (∃ answer rest, input = some (.answer answer) ∧ code.answered answer = some rest ∧
        after = ⟨.active (focus rest) frames, holding, true⟩) ∨
      (∃ payload, (code = .panic payload ∧ input = none ∨
          calling = true ∧ input = some (.refused payload)) ∧
        after = ⟨.active (fault payload) frames, holding, false⟩) ∨
      ∃ result, code = .done result ∧ ∀ payload, input ≠ some (.refused payload)
  unreached : ∀ (code : Code σ α) (frames stack : List (Frame σ)) (exit : Exit Erased),
    ¬Place.Reaches stack (.active (focus code) frames) exit

/-- The cause that a panic of a deferred computation raises. -/
def raised (payload : Payload) : Focus σ := .cause (.ofPayload payload)

/-- The defect that a panic leaves in place of the next effect. -/
def defect (payload : Payload) : Focus σ := .node (.failNow (.ofPayload payload))

theorem codeFocus_thunk : CodeFocus (σ := σ) .thunk raised where
  unreached _ _ _ _ := nofun
  next step := by
    cases step with
    | ended ended =>
      cases ended
      exact .inr (.inr ⟨_, rfl, nofun⟩)
    | answered answered =>
      cases answered with
      | thunk next => exact .inl ⟨_, _, rfl, next, rfl⟩
    | panicked panics caught =>
      cases panics
      cases caught
      exact .inr (.inl ⟨_, .inl ⟨rfl, rfl⟩, rfl⟩)
    | refused caught =>
      cases caught
      exact .inr (.inl ⟨_, .inr ⟨rfl, rfl⟩, rfl⟩)

theorem codeFocus_raising : CodeFocus (σ := σ) .raising raised where
  unreached _ _ _ _ := nofun
  next step := by
    cases step with
    | ended ended =>
      cases ended
      exact .inr (.inr ⟨_, rfl, nofun⟩)
    | answered answered =>
      cases answered with
      | raising next => exact .inl ⟨_, _, rfl, next, rfl⟩
    | panicked panics caught =>
      cases panics
      cases caught
      exact .inr (.inl ⟨_, .inl ⟨rfl, rfl⟩, rfl⟩)
    | refused caught =>
      cases caught
      exact .inr (.inl ⟨_, .inr ⟨rfl, rfl⟩, rfl⟩)

theorem codeFocus_building : CodeFocus (σ := σ) .building defect where
  unreached _ _ _ _ := nofun
  next step := by
    cases step with
    | ended ended =>
      cases ended
      exact .inr (.inr ⟨_, rfl, nofun⟩)
    | answered answered =>
      cases answered with
      | building next => exact .inl ⟨_, _, rfl, next, rfl⟩
    | panicked panics caught =>
      cases panics
      cases caught
      exact .inr (.inl ⟨_, .inl ⟨rfl, rfl⟩, rfl⟩)
    | refused caught =>
      cases caught
      exact .inr (.inl ⟨_, .inr ⟨rfl, rfl⟩, rfl⟩)

theorem codeFocus_registering (callback : CallbackId) :
    CodeFocus (σ := σ) (.registering callback) raised where
  unreached _ _ _ _ := nofun
  next step := by
    cases step with
    | ended ended => cases ended
    | met | parked => exact .inr (.inr ⟨_, rfl, nofun⟩)
    | answered answered =>
      cases answered with
      | registering next => exact .inl ⟨_, _, rfl, next, rfl⟩
    | panicked panics caught =>
      cases panics
      cases caught
      exact .inr (.inl ⟨_, .inl ⟨rfl, rfl⟩, rfl⟩)
    | refused caught =>
      cases caught
      exact .inr (.inl ⟨_, .inr ⟨rfl, rfl⟩, rfl⟩)

/-- A result of user code is what the fiber goes on with, unless its last request is refused. -/
theorem Step.of_ended {focus next : Focus σ} {frames : List (Frame σ)} {holding : Holding}
    {calling : Bool} {input : Option (Input σ)}
    (step : Step ⟨.active focus frames, holding, calling⟩ input after) (ended : focus.Ended next)
    (granted : ∀ payload, input ≠ some (.refused payload)) :
    input = none ∧ after = ⟨.active next frames, holding, false⟩ := by
  cases step with
  | ended ended' => cases ended <;> cases ended' <;> exact ⟨rfl, rfl⟩
  | answered answered =>
    cases ended <;> cases answered with
    | _ next => cases next
  | panicked panics => cases ended <;> cases panics
  | refused => exact absurd rfl (granted _)
  | interrupted | interpreted | delivered | handled | met | parked => cases ended

/-- A registration that has returned meets its value or parks the fiber, unless its last request is
refused. -/
theorem Step.of_returned {callback : CallbackId} {frames : List (Frame σ)} {holding : Holding}
    {calling : Bool} {input : Option (Input σ)}
    (step : Step ⟨.active (.registering callback (.done ())) frames, holding, calling⟩ input after)
    (granted : ∀ payload, input ≠ some (.refused payload)) :
    (∃ value, input = some (.value value) ∧
        after = ⟨.active (.value value) frames, holding, false⟩) ∨
      (input = none ∧ after = ⟨.suspended callback frames, holding, false⟩) := by
  cases step with
  | ended ended => cases ended
  | answered answered => cases answered with
    | registering next => cases next
  | panicked panics => cases panics
  | refused => exact absurd rfl (granted _)
  | @met _ value => exact .inl ⟨value, rfl, rfl⟩
  | parked => exact .inr ⟨rfl, rfl⟩

/-- A path to its stack leads through user code to a panic or to a result, from which it takes a
good step. -/
theorem Path.of_code_good {α : Type} {focus : Code σ α → Focus σ} {fault : Payload → Focus σ}
    (runs : CodeFocus focus fault) {code : Code σ α} {frames : List (Frame σ)} {holding : Holding}
    {calling : Bool}
    (path : Path good stack ⟨.active (focus code) frames, holding, calling⟩ inputs count after)
    (reaches : after.place.Reaches stack exit) :
    ∃ first second count', inputs = first ++ second ∧ count' < count ∧
      ((∃ payload, Computes calling code first (.error payload) ∧
          Path good stack ⟨.active (fault payload) frames, holding, false⟩ second count' after) ∨
        ∃ result calling' input mid rest, Computes calling code first (.ok result) ∧
          second = input.toList ++ rest ∧
          Step ⟨.active (focus (.done result)) frames, holding, calling'⟩ input mid ∧
          (∀ payload, input ≠ some (.refused payload)) ∧
          good ⟨.active (focus (.done result)) frames, holding, calling'⟩ input mid ∧
          Path good stack mid rest count' after) := by
  induction count generalizing code calling inputs with
  | zero =>
    obtain ⟨_, _, _, _, _, none, _⟩ := path.next_good_of_reaches reaches (runs.unreached _ _ _)
    cases none
  | succ count ih =>
    obtain ⟨input, mid, inputs', count', rfl, same, _, step, fits, rest⟩ :=
      path.next_good_of_reaches reaches (runs.unreached _ _ _)
    cases same
    rcases runs.next step with ⟨answer, code', rfl, next, rfl⟩ |
      ⟨payload, ⟨rfl, rfl⟩ | ⟨rfl, rfl⟩, rfl⟩ | ⟨result, rfl, granted⟩
    · obtain ⟨first, second, count', rfl, lt, ends⟩ := ih rest
      refine ⟨.answer answer :: first, second, count', rfl, Nat.lt_succ_of_lt lt, ?_⟩
      rcases ends with ⟨payload, computes, path⟩ |
        ⟨result, calling', input, mid, rest, computes, inputs, step, granted, fits, path⟩
      · exact .inl ⟨payload, .answered next computes, path⟩
      · exact .inr ⟨result, calling', input, mid, rest, .answered next computes, inputs, step,
          granted, fits, path⟩
    · exact ⟨[], inputs', count, rfl, Nat.lt_succ_self count, .inl ⟨payload, .panic payload, rest⟩⟩
    · exact ⟨[.refused payload], inputs', count, rfl, Nat.lt_succ_self count,
        .inl ⟨payload, .refused code payload, rest⟩⟩
    · exact ⟨[], _, count, rfl, Nat.lt_succ_self count,
        .inr ⟨result, calling, input, mid, inputs', .done result, rfl, step, granted, fits, rest⟩⟩

/-- A path to its stack leads through user code to a panic or to a result. -/
theorem Path.of_code {α : Type} {focus : Code σ α → Focus σ} {fault : Payload → Focus σ}
    (runs : CodeFocus focus fault) {code : Code σ α} {frames : List (Frame σ)} {holding : Holding}
    {calling : Bool}
    (path : Path good stack ⟨.active (focus code) frames, holding, calling⟩ inputs count after)
    (reaches : after.place.Reaches stack exit) :
    ∃ first second count', inputs = first ++ second ∧ count' < count ∧
      ((∃ payload, Computes calling code first (.error payload) ∧
          Path good stack ⟨.active (fault payload) frames, holding, false⟩ second count' after) ∨
        ∃ result calling' input mid rest, Computes calling code first (.ok result) ∧
          second = input.toList ++ rest ∧
          Step ⟨.active (focus (.done result)) frames, holding, calling'⟩ input mid ∧
          (∀ payload, input ≠ some (.refused payload)) ∧
            Path good stack mid rest count' after) := by
  obtain ⟨first, second, count', split, lt, ends⟩ := path.of_code_good runs reaches
  refine ⟨first, second, count', split, lt, ends.imp_right ?_⟩
  rintro ⟨result, calling', input, mid, rest, computes, inputs, step, granted, _, path⟩
  exact ⟨result, calling', input, mid, rest, computes, inputs, step, granted, path⟩

/-! ### Stretches -/

/-- What a fiber is given at each moment of a stretch, if it takes a step there. -/
def Fed (strands : Nat → Strand σ) (feed : Nat → Option (Option (Input σ))) (first last : Nat) :
    Prop :=
  ∀ n, first ≤ n → n < last →
    match feed n with
    | none => strands (n + 1) = strands n
    | some input => (strands n).Step input (strands (n + 1))

/-- The inputs of a stretch, in their order. -/
def taken (feed : Nat → Option (Option (Input σ))) (first last : Nat) : List (Input σ) :=
  (List.range' first (last - first)).filterMap fun n => (feed n).join

/-- How many steps a fiber takes in a stretch. -/
def stepsOf (feed : Nat → Option (Option (Input σ))) (first last : Nat) : Nat :=
  (List.range' first (last - first)).countP fun n => (feed n).isSome

theorem Step.requested {input : Option (Input σ)} (step : before.Step input after) :
    after.holding.flags.requested = before.holding.flags.requested := by
  cases step with
  | interpreted undue meaning => cases meaning <;> rfl
  | _ => rfl

/-- Who has been asked stays asked. -/
theorem Moves.requested (moves : before.Moves after)
    (asked : before.holding.flags.requested = true) : after.holding.flags.requested = true := by
  rcases moves.waits_or_steps with ⟨holding, rfl, rfl | rfl⟩ | ⟨holding, input, rfl | rfl, step⟩
  · exact asked
  · rfl
  · exact step.requested.trans asked
  · exact step.requested

/-- An interruption takes effect only in who has been asked. -/
theorem Moves.requested_of_finalizing (moves : before.Moves after)
    (asked : before.holding.flags.finalizing = true → before.holding.flags.requested = true)
    (late : after.holding.flags.finalizing = true) : after.holding.flags.requested = true := by
  rcases moves.waits_or_steps with ⟨holding, rfl, request⟩ | ⟨holding, input, request, step⟩
  · exact moves.requested (asked ((finalizing_of_asked request).symm.trans late))
  · rcases step.finalizing with same | ⟨_, _, _, due, _⟩
    · exact moves.requested (asked ((same.trans (finalizing_of_asked request)).symm.trans late))
    · exact step.requested.trans (InterruptFlags.shouldInterrupt_iff.mp due).1

theorem Stretch.requested {strands : Nat → Strand σ} {first last : Nat}
    (stretch : Stretch strands first last) (le : first ≤ last)
    (asked : (strands first).holding.flags.requested = true) :
    (strands last).holding.flags.requested = true := by
  induction last, le using Nat.le_induction with
  | base => exact asked
  | succ last le ih =>
    exact (stretch last le (Nat.lt_succ_self last)).requested
      (ih (stretch.mono le_rfl (Nat.le_succ last)))

theorem request_of_requested {holding : Holding} (asked : holding.flags.requested = true) :
    holding.request = holding := by
  obtain ⟨⟨requested, finalizing, status⟩, environments, executor⟩ := holding
  cases asked
  rfl

/-- A fiber that nobody asks for interruption, or that has been asked before, only rests or takes
its own steps. -/
theorem Stretch.exists_fed_of_settled {strands : Nat → Strand σ} {first last : Nat}
    (stretch : Stretch strands first last)
    (settled : ∀ n, first ≤ n → n < last → (strands n).holding.flags.requested = true ∨
      (strands (n + 1)).holding.flags.requested = false) :
    ∃ feed, Fed strands feed first last := by
  have fed (n : Nat) : ∃ input : Option (Option (Input σ)), first ≤ n → n < last →
      match input with
      | none => strands (n + 1) = strands n
      | some input => (strands n).Step input (strands (n + 1)) := by
    by_cases within : first ≤ n ∧ n < last
    · obtain ⟨low, high⟩ := within
      have own : ∀ asked, asked = strands n ∨ asked = (strands n).request →
          asked.holding.flags.requested = (strands (n + 1)).holding.flags.requested →
          asked = strands n := by
        rintro asked (rfl | rfl) same
        · rfl
        · rcases settled n low high with before | never
          · rw [request, request_of_requested before]
          · cases same.trans never
      obtain ⟨asked, request, rest | ⟨input, step⟩⟩ := stretch n low high
      · obtain rfl := own asked request (rest ▸ rfl)
        exact ⟨none, fun _ _ => rest⟩
      · obtain rfl := own asked request step.requested.symm
        exact ⟨some input, fun _ _ => step⟩
    · exact ⟨none, fun low high => absurd ⟨low, high⟩ within⟩
  exact ⟨fun n => (fed n).choose, fun n => (fed n).choose_spec⟩

/-- A fiber that nobody asks for interruption only rests or takes its own steps. -/
theorem Stretch.exists_fed {strands : Nat → Strand σ} {first last : Nat}
    (stretch : Stretch strands first last)
    (unrequested : ∀ n, first ≤ n → n ≤ last → (strands n).holding.flags.requested = false) :
    ∃ feed, Fed strands feed first last :=
  stretch.exists_fed_of_settled fun n low high =>
    .inr (unrequested (n + 1) (Nat.le_succ_of_le low) high)

theorem range_of_lt {first last : Nat} (lt : first < last) :
    List.range' first (last - first) = first :: List.range' (first + 1) (last - (first + 1)) := by
  obtain ⟨length, rfl⟩ := Nat.exists_eq_add_of_lt lt
  rw [show first + length + 1 - first = length + 1 by omega, List.range'_succ,
    show first + length + 1 - (first + 1) = length by omega]

theorem taken_of_lt (feed : Nat → Option (Option (Input σ))) {first last : Nat}
    (lt : first < last) :
    taken feed first last = (feed first).join.toList ++ taken feed (first + 1) last := by
  rw [taken, range_of_lt lt, List.filterMap_cons, taken]
  cases (feed first).join <;> rfl

theorem stepsOf_of_lt (feed : Nat → Option (Option (Input σ))) {first last : Nat}
    (lt : first < last) :
    stepsOf feed first last =
      stepsOf feed (first + 1) last + (if (feed first).isSome then 1 else 0) := by
  rw [stepsOf, range_of_lt lt, List.countP_cons, stepsOf]

/-- A stretch is a path. -/
theorem Fed.path {strands : Nat → Strand σ} {feed : Nat → Option (Option (Input σ))}
    {first last : Nat} (fed : Fed strands feed first last) (le : first ≤ last)
    (undue : ∀ n, first ≤ n → n < last → (strands n).holding.flags.shouldInterrupt = false)
    (inside : ∀ n, first ≤ n → n < last → ∀ exit, ¬(strands n).place.Reaches stack exit)
    (fits : ∀ n, first ≤ n → n < last → ∀ input, feed n = some input →
      good (strands n) input (strands (n + 1))) :
    Path good stack (strands first) (taken feed first last) (stepsOf feed first last)
      (strands last) := by
  induction le using Nat.decreasingInduction with
  | self =>
    simp only [taken, stepsOf, Nat.sub_self, List.range'_zero]
    exact .here _
  | of_succ first lt ih =>
    have rest := ih (fun n low => fed n (Nat.le_of_succ_le low))
      (fun n low => undue n (Nat.le_of_succ_le low)) (fun n low => inside n (Nat.le_of_succ_le low))
      fun n low => fits n (Nat.le_of_succ_le low)
    have now := fed first le_rfl lt
    rw [taken_of_lt feed lt, stepsOf_of_lt feed lt]
    cases given : feed first with
    | none =>
      rw [given] at now
      rw [now] at rest
      exact rest
    | some input =>
      rw [given] at now
      exact .step (inside first le_rfl lt) (undue first le_rfl lt) now
        (fits first le_rfl lt input given) rest

end Strand

end Fibers
