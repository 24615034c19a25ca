import Fibers.Proofs.Strand.Path

/-!
# What a fiber comes to is what its effect means

## Main result

`Strand.evaluates_of_path`: a fiber that works on an effect, and comes down to the frames under it
without an interruption, comes with the outcome that the effect evaluates to, and with the
environments and flags that it had before.

## Proof strategy

Strong induction on the number of steps, with a case for each kind of effect. The part of a path
above a pushed frame is a shorter path of the effect inside (`Path.split`), and so is what follows
once user code has built the next effect (`Path.of_code`).
-/

namespace Fibers

variable {σ : Type}

/-- Nothing of what effects can see has changed. -/
def Holding.Keeps (before after : Holding) : Prop :=
  after.environments = before.environments ∧ after.flags = before.flags

theorem Holding.Keeps.refl (holding : Holding) : holding.Keeps holding := ⟨rfl, rfl⟩

theorem Holding.Keeps.trans {first second third : Holding} (h : first.Keeps second)
    (h' : second.Keeps third) : first.Keeps third :=
  ⟨h'.1.trans h.1, h'.2.trans h.2⟩

namespace Strand

variable {good : Strand σ → Option (Input σ) → Strand σ → Prop} {stack : List (Frame σ)}
  {before after : Strand σ} {inputs : List (Input σ)} {count : Nat}
  {outcome exit : Exit Erased}

/-! ### Short paths -/

/-- A path that starts at its stack ends there. -/
theorem Path.of_reached (path : Path good stack before inputs count after)
    (reached : before.place.Reaches stack outcome) (reaches : after.place.Reaches stack exit) :
    inputs = [] ∧ after = before ∧ exit = outcome := by
  cases path with
  | here => exact ⟨rfl, rfl, reaches.unique reached⟩
  | step inside => exact absurd reached (inside _)

theorem Path.of_built {next : Node σ} {frames : List (Frame σ)} {holding : Holding}
    (path : Path good stack ⟨.active (.building (.done next)) frames, holding, false⟩ inputs count
      after)
    (reaches : after.place.Reaches stack exit) :
    ∃ count', count = count' + 1 ∧
      Path good stack ⟨.active (.node next) frames, holding, false⟩ inputs count' after := by
  obtain ⟨input, mid, inputs', count', rfl, same, _, step, rest⟩ :=
    path.next_of_reaches reaches fun _ => nofun
  obtain ⟨rfl, rfl⟩ := step.of_built
  exact ⟨count', same, rest⟩

/-- An effect that is not interrupted is interpreted. -/
theorem Path.of_node {current : Node σ} {frames : List (Frame σ)} {holding : Holding}
    {calling : Bool} (path : Path good stack ⟨.active (.node current) frames, holding, calling⟩
      inputs count after) (reaches : after.place.Reaches stack exit) :
    ∃ input mid inputs' count', inputs = input.toList ++ inputs' ∧ count = count' + 1 ∧
      current.Interprets frames holding input mid ∧ Path good stack mid inputs' count' after := by
  obtain ⟨input, mid, inputs', count', inputs, count, undue, step, rest⟩ :=
    path.next_of_reaches reaches fun _ => nofun
  exact ⟨input, mid, inputs', count', inputs, count, step.interprets undue, rest⟩

/-- An outcome that is the next effect is the outcome of a path. -/
theorem Path.of_ofExit {holding : Holding} {calling : Bool}
    (path : Path good stack ⟨.active (.node (.ofExit outcome)) stack, holding, calling⟩ inputs
      count after)
    (reaches : after.place.Reaches stack exit) :
    inputs = [] ∧ exit = outcome ∧ after.holding = holding := by
  obtain ⟨input, mid, inputs', count', rfl, _, meaning, rest⟩ := path.of_node reaches
  cases outcome with
  | success value =>
    cases meaning
    obtain ⟨rfl, rfl, rfl⟩ := rest.of_reached (.value value) reaches
    exact ⟨rfl, rfl, rfl⟩
  | failure cause =>
    cases meaning
    obtain ⟨input, mid, inputs', count', rfl, _, _, step, rest⟩ :=
      rest.next_of_reaches reaches fun _ => nofun
    obtain ⟨rfl, rfl⟩ := step.of_raised
    obtain ⟨rfl, rfl, rfl⟩ := rest.of_reached (.cause cause []) reaches
    exact ⟨rfl, rfl, rfl⟩

theorem Path.of_succeed {value : Erased} {holding : Holding} {calling : Bool}
    (path : Path good stack ⟨.active (.node (.succeed value)) stack, holding, calling⟩ inputs
      count after)
    (reaches : after.place.Reaches stack exit) :
    inputs = [] ∧ exit = .success value ∧ after.holding = holding := by
  have path : Path good stack ⟨.active (.node (.ofExit (.success value))) stack, holding, calling⟩
      inputs count after := path
  exact path.of_ofExit reaches

/-- A region puts something back and passes its outcome on. -/
theorem Path.of_restorer {restorer : Node σ} {putBack : Holding → Holding} {holding : Holding}
    (meaning : ∀ {frames holding input after}, restorer.Interprets frames holding input after →
      input = none ∧ after = ⟨.active (.value .unit) frames, putBack holding, false⟩)
    (path : Path good stack ⟨.active (.building (.done (restorer.andThen (.ofExit outcome)))) stack,
      holding, false⟩ inputs count after) (reaches : after.place.Reaches stack exit) :
    inputs = [] ∧ exit = outcome ∧ after.holding = putBack holding := by
  obtain ⟨_, _, path⟩ := path.of_built reaches
  obtain ⟨_, _, _, _, rfl, _, pushed, path⟩ := path.of_node reaches
  cases pushed
  obtain ⟨_, _, _, _, rfl, _, done, path⟩ := path.of_node reaches
  obtain ⟨rfl, rfl⟩ := meaning done
  have reached : Place.Reaches (.apply (.constant (.ofExit outcome)) :: stack)
      (.active (.value .unit) (.apply (.constant (.ofExit outcome)) :: stack)) (.success .unit) :=
    .value .unit
  obtain ⟨_, _, _, _, rfl, _, _, step, path⟩ :=
    path.next_of_reaches reaches fun _ => reached.not_below
  obtain ⟨rfl, rfl⟩ := step.of_reaches_apply reached
  obtain ⟨_, _, path⟩ := path.of_built reaches
  exact path.of_ofExit reaches

/-- A path of an effect above one more frame first leads down to the frame. -/
theorem Path.above {effect : Node σ} {frame : Frame σ} {holding : Holding}
    (path : Path good stack ⟨.active (.node effect) (frame :: stack), holding, false⟩ inputs count
      after) (reaches : after.place.Reaches stack exit) :
    ∃ mid first second count₁ count₂ outcome, inputs = first ++ second ∧ count = count₁ + count₂ ∧
      Path good (frame :: stack) ⟨.active (.node effect) (frame :: stack), holding, false⟩ first
        count₁ mid ∧
      mid.place.Reaches (frame :: stack) outcome ∧ Path good stack mid second count₂ after := by
  obtain ⟨mid, first, second, count₁, count₂, rfl, rfl, path, path', ends⟩ :=
    path.split (List.suffix_rfl : frame :: stack <:+ frame :: stack)
  rcases ends with ⟨outcome, reached⟩ | ⟨rfl, above, _, unreached⟩
  · exact ⟨mid, first, second, count₁, count₂, outcome, rfl, rfl, path, reached, path'⟩
  · cases frame with
    | apply continuation => exact absurd (reaches.of_above_apply above) (unreached _)
    | fold handler => exact absurd above reaches.not_above_fold

/-- A path of an effect under a handler first leads down to the handler, which takes its outcome. -/
theorem Path.handled {effect : Node σ} {handler : Handler σ} {holding : Holding}
    (path : Path good stack ⟨.active (.node effect) (.fold handler :: stack), holding, false⟩ inputs
      count after) (reaches : after.place.Reaches stack exit) :
    ∃ mid first second count₁ count₂ outcome, inputs = first ++ second ∧
      count = count₁ + count₂ + 1 ∧
      Path good (.fold handler :: stack)
        ⟨.active (.node effect) (.fold handler :: stack), holding, false⟩ first count₁ mid ∧
      mid.place.Reaches (.fold handler :: stack) outcome ∧
      Path good stack ⟨.active (.building (handler.receive outcome)) stack, mid.holding, false⟩
        second count₂ after := by
  obtain ⟨mid, first, second, count₁, count₂, outcome, rfl, rfl, upper, reached, lower⟩ :=
    path.above reaches
  obtain ⟨input, mid', second, count', rfl, rfl, _, step, lower⟩ :=
    lower.next_of_reaches reaches fun _ under => under.not_above_fold reached.above
  obtain ⟨rfl, rfl⟩ := step.of_reaches_fold reached
  exact ⟨mid, first, second, count₁, count', outcome, rfl, rfl, upper, reached, lower⟩

/-! ### All paths -/

/-- What the paths of a number of steps come to is what effects mean. -/
def Sound (σ : Type) (count : Nat) : Prop :=
  ∀ {effect : Node σ} {stack : List (Frame σ)} {holding : Holding} {calling : Bool}
    {inputs : List (Input σ)} {after : Strand σ} {exit : Exit Erased}, effect.Authored →
    Path Anyhow stack ⟨.active (.node effect) stack, holding, calling⟩ inputs count after →
    after.place.Reaches stack exit →
    Evaluates holding.environments effect inputs exit ∧ holding.Keeps after.holding

/-- What a path does with code that builds the next effect. -/
theorem Path.of_building (ih : ∀ count' < count, Sound σ count') {code : Code σ (Node σ)}
    (authored : code.Yields Node.Authored) {holding : Holding}
    (path : Path Anyhow stack ⟨.active (.building code) stack, holding, false⟩ inputs count after)
    (reaches : after.place.Reaches stack exit) :
    ∃ first second built, inputs = first ++ second ∧ Computes false code first built ∧
      Evaluates holding.environments (.ofBuilt built) second exit ∧
        holding.Keeps after.holding := by
  obtain ⟨first, second, count', rfl, lt, ⟨payload, computes, rest⟩ |
    ⟨next, calling, input, mid, second, computes, rfl, step, granted, rest⟩⟩ :=
      path.of_code codeFocus_building reaches
  · obtain ⟨evaluates, keeps⟩ := ih count' lt (Node.authored_failNow _) rest reaches
    exact ⟨first, second, .error payload, rfl, computes, evaluates, keeps⟩
  · obtain ⟨rfl, rfl⟩ := step.of_ended (.building next) granted
    obtain ⟨evaluates, keeps⟩ := ih count' lt (computes.authored authored) rest reaches
    exact ⟨first, second, .ok next, rfl, computes, evaluates, keeps⟩

/-- What a path does with an effect above one more frame. -/
theorem Path.of_above (ih : ∀ count' ≤ count, Sound σ count') {effect : Node σ}
    (authored : effect.Authored) {frame : Frame σ} {holding : Holding}
    (path : Path Anyhow stack ⟨.active (.node effect) (frame :: stack), holding, false⟩ inputs count
      after)
    (reaches : after.place.Reaches stack exit) :
    ∃ mid first second count' outcome, inputs = first ++ second ∧ count' ≤ count ∧
      Evaluates holding.environments effect first outcome ∧ holding.Keeps mid.holding ∧
      mid.place.Reaches (frame :: stack) outcome ∧ Path Anyhow stack mid second count' after := by
  obtain ⟨mid, first, second, count₁, count₂, outcome, rfl, rfl, path, reached, path'⟩ :=
    path.above reaches
  obtain ⟨evaluates, keeps⟩ := ih count₁ (Nat.le_add_right _ _) authored path reached
  exact ⟨mid, first, second, count₂, outcome, rfl, Nat.le_add_left _ _, evaluates, keeps, reached,
    path'⟩

/-- What a path does with an effect under a handler. -/
theorem Path.of_handled (ih : ∀ count' ≤ count, Sound σ count') {effect : Node σ}
    (authored : effect.Authored) {handler : Handler σ} {holding : Holding}
    (path : Path Anyhow stack ⟨.active (.node effect) (.fold handler :: stack), holding, false⟩
      inputs count after) (reaches : after.place.Reaches stack exit) :
    ∃ first second count' outcome holding', inputs = first ++ second ∧ count' ≤ count ∧
      Evaluates holding.environments effect first outcome ∧ holding.Keeps holding' ∧
      Path Anyhow stack ⟨.active (.building (handler.receive outcome)) stack, holding', false⟩
        second count' after := by
  obtain ⟨mid, first, second, count₁, count₂, outcome, rfl, rfl, path, reached, path'⟩ :=
    path.handled reaches
  obtain ⟨evaluates, keeps⟩ := ih count₁ (by omega) authored path reached
  exact ⟨first, second, count₂, outcome, mid.holding, rfl, by omega, evaluates, keeps, path'⟩

theorem sound_sync {code : Code σ Erased} {holding : Holding}
    (path : Path Anyhow stack ⟨.active (.thunk code) stack, holding, false⟩ inputs count after)
    (reaches : after.place.Reaches stack exit) :
    Evaluates holding.environments (.sync code) inputs exit ∧ holding.Keeps after.holding := by
  obtain ⟨first, second, count', rfl, _, ⟨payload, computes, rest⟩ |
    ⟨value, calling, input, mid, second, computes, rfl, step, granted, rest⟩⟩ :=
      path.of_code codeFocus_thunk reaches
  · obtain ⟨rfl, rfl, rfl⟩ := rest.of_reached (.cause _ []) reaches
    rw [List.append_nil]
    exact ⟨.sync computes, .refl _⟩
  · obtain ⟨rfl, rfl⟩ := step.of_ended (.thunk value) granted
    obtain ⟨rfl, rfl, rfl⟩ := rest.of_reached (.value value) reaches
    rw [Option.toList_none, List.append_nil, List.append_nil]
    exact ⟨.sync computes, .refl _⟩

theorem sound_fail {code : Code σ Cause} {holding : Holding}
    (path : Path Anyhow stack ⟨.active (.raising code) stack, holding, false⟩ inputs count after)
    (reaches : after.place.Reaches stack exit) :
    Evaluates holding.environments (.fail code) inputs exit ∧ holding.Keeps after.holding := by
  obtain ⟨first, second, count', rfl, _, ⟨payload, computes, rest⟩ |
    ⟨cause, calling, input, mid, second, computes, rfl, step, granted, rest⟩⟩ :=
      path.of_code codeFocus_raising reaches
  · obtain ⟨rfl, rfl, rfl⟩ := rest.of_reached (.cause _ []) reaches
    rw [List.append_nil]
    exact ⟨.fail computes, .refl _⟩
  · obtain ⟨rfl, rfl⟩ := step.of_ended (.raising cause) granted
    obtain ⟨rfl, rfl, rfl⟩ := rest.of_reached (.cause cause []) reaches
    rw [Option.toList_none, List.append_nil, List.append_nil]
    exact ⟨.fail computes, .refl _⟩

/-- The value of a callback is delivered at once, or the fiber is suspended and goes on with it. -/
theorem Path.of_registered {callback : CallbackId} {holding : Holding} {calling : Bool}
    {input : Option (Input σ)} {mid : Strand σ}
    (step : Step ⟨.active (.registering callback (.done ())) stack, holding, calling⟩ input mid)
    (granted : ∀ payload, input ≠ some (.refused payload))
    (path : Path Anyhow stack mid inputs count after)
    (reaches : after.place.Reaches stack exit) :
    ∃ value, input.toList ++ inputs = [.value value] ∧ exit = .success value ∧
      after.holding = holding := by
  rcases step.of_returned granted with ⟨value, rfl, rfl⟩ | ⟨rfl, rfl⟩
  · obtain ⟨rfl, rfl, rfl⟩ := path.of_reached (.value value) reaches
    exact ⟨value, rfl, rfl, rfl⟩
  · obtain ⟨input, mid, inputs, count', rfl, _, _, step, path⟩ :=
      path.next_of_reaches reaches fun _ => nofun
    cases step with
    | @resumed _ value =>
      obtain ⟨rfl, rfl, same⟩ := path.of_succeed reaches
      exact ⟨value, rfl, rfl, same⟩

theorem sound_async {register : CallbackId → Code σ Unit} {callback : CallbackId}
    {holding : Holding}
    (path : Path Anyhow stack ⟨.active (.registering callback (register callback)) stack, holding,
      false⟩ inputs count after) (reaches : after.place.Reaches stack exit) :
    Evaluates holding.environments (.async register) (.callback callback :: inputs) exit ∧
      holding.Keeps after.holding := by
  obtain ⟨first, second, count', rfl, _, ⟨payload, computes, rest⟩ |
    ⟨_, calling, input, mid, second, computes, rfl, step, granted, rest⟩⟩ :=
      path.of_code (codeFocus_registering callback) reaches
  · obtain ⟨rfl, rfl, rfl⟩ := rest.of_reached (.cause _ []) reaches
    rw [List.append_nil]
    exact ⟨.asyncPanicked computes, .refl _⟩
  · obtain ⟨value, inputs, rfl, same⟩ := Path.of_registered step granted rest reaches
    rw [inputs, same]
    exact ⟨.async computes, .refl _⟩

/-- What the paths of any number of steps come to is what effects mean. -/
theorem sound (count : Nat) : Sound σ count := by
  -- On the number of steps: the first one interprets the node, and what the rest evaluates
  -- is shorter.
  induction count using Nat.strong_induction_on with
  | _ count ih =>
    intro effect stack holding calling inputs after exit authored path reaches
    obtain ⟨input, mid, inputs, count, rfl, rfl, meaning, path⟩ := path.of_node reaches
    have le : ∀ count' ≤ count, Sound σ count' := fun count' le => ih count' (by omega)
    have lt : ∀ count' < count, Sound σ count' := fun count' lt => ih count' (by omega)
    cases authored with
    | succeed value =>
      cases meaning
      obtain ⟨rfl, rfl, rfl⟩ := path.of_reached (.value value) reaches
      exact ⟨.succeed _ value, .refl _⟩
    | sync code =>
      cases meaning
      exact sound_sync path reaches
    | flatMap effect_authored continuation_authored =>
      cases meaning
      obtain ⟨mid, first, second, count', outcome, rfl, small, evaluates, keeps, reached, path⟩ :=
        path.of_above le effect_authored reaches
      -- A failure unwinds past the frame of the continuation, so nothing is built and nothing
      -- of the path is left over.
      cases outcome with
      | failure cause =>
        obtain ⟨rfl, rfl, rfl⟩ := path.of_reached reached.of_apply reaches
        rw [List.append_nil]
        exact ⟨.flatMapSkipped evaluates, keeps⟩
      | success value =>
        obtain ⟨input, mid', second, count', rfl, rfl, _, step, path⟩ :=
          path.next_of_reaches reaches fun _ => reached.not_below
        obtain ⟨rfl, rfl⟩ := step.of_reaches_apply reached
        obtain ⟨second, third, built, rfl, computes, evaluates', keeps'⟩ :=
          path.of_building (fun count' small => le count' (by omega))
            (continuation_authored.applyTo value) reaches
        rw [keeps.1] at evaluates'
        rw [Option.toList_none, List.nil_append, List.nil_append]
        exact ⟨.flatMap evaluates computes evaluates', keeps.trans keeps'⟩
    | async register =>
      cases meaning
      exact sound_async path reaches
    | fork effect_authored =>
      cases meaning
      obtain ⟨rfl, rfl, rfl⟩ := path.of_reached (.value _) reaches
      exact ⟨.fork _ _ _, .refl _⟩
    | fail code =>
      cases meaning
      exact sound_fail path reaches
    | fold effect_authored handler_authored =>
      cases meaning
      -- Whatever the effect comes to, the handler takes it and builds the rest.
      obtain ⟨first, second, count', outcome, holding', rfl, small, evaluates, keeps, path⟩ :=
        path.of_handled le effect_authored reaches
      obtain ⟨second, third, built, rfl, computes, evaluates', keeps'⟩ :=
        path.of_building (fun count'' small' => le count'' (by omega))
          (handler_authored.receive outcome) reaches
      rw [keeps.1] at evaluates'
      rw [Option.toList_none, List.nil_append]
      exact ⟨.fold evaluates computes evaluates', keeps.trans keeps'⟩
    | shift executor =>
      cases meaning
      obtain ⟨rfl, rfl, same⟩ := path.of_succeed reaches
      rw [same]
      exact ⟨.shift _ executor, rfl, rfl⟩
    | withStatus effect_authored status =>
      cases meaning
      obtain ⟨first, second, count', outcome, holding', rfl, _, evaluates, keeps, path⟩ :=
        path.of_handled le effect_authored reaches
      rw [Handler.receive_finalizer] at path
      obtain ⟨rfl, rfl, same⟩ := path.of_restorer interprets_restoreStatus reaches
      rw [Option.toList_none, List.nil_append, List.append_nil, same]
      exact ⟨.withStatus evaluates, keeps.1, congrArg (·.setStatus holding.flags.status) keeps.2⟩
    | provide effect_authored environment =>
      cases meaning
      obtain ⟨first, second, count', outcome, holding', rfl, _, evaluates, keeps, path⟩ :=
        path.of_handled le effect_authored reaches
      rw [Handler.receive_finalizer] at path
      obtain ⟨rfl, rfl, same⟩ := path.of_restorer interprets_leaveScope reaches
      rw [Option.toList_none, List.nil_append, List.append_nil, same]
      exact ⟨.provide evaluates, congrArg List.tail keeps.1, keeps.2⟩
    | access continuation_authored =>
      cases meaning with
      | @access _ environment outer provided =>
        -- Only the environment in force reaches the continuation.
        obtain ⟨first, second, built, rfl, computes, evaluates, keeps⟩ :=
          path.of_building lt (continuation_authored.applyTo environment) reaches
        rw [provided] at evaluates ⊢
        rw [Option.toList_none, List.nil_append]
        exact ⟨.access computes evaluates, keeps⟩
      | accessNothing _ missing =>
        obtain ⟨rfl, rfl, rfl⟩ := path.of_reached (.cause _ []) reaches
        rw [missing]
        exact ⟨.accessNothing _, .refl _⟩

end Strand

end Fibers
