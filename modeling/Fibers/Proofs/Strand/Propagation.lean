import Fibers.Proofs.Strand.Finalizer
import Fibers.Proofs.Strand.Scope
import Fibers.Proofs.Strand.Soundness

/-!
# Causes on their way down

A cause that is raised on top of some frames goes down through them. It skips continuations, passes
handlers that are not for it, restores what regions have changed, and lets every finalizer run on
its way.

## Main results

`Strand.course` says by recursion on the frames which finalizers a cause meets, in which scopes, and
where it lands. `Strand.Fed.descends`: while no interruption is due, that is what happens
(`Strand.Descends`), up to the first finalizer that fails.

## Proof strategy

Between two finalizers a fiber is in one of eight small states (`Carries`), each nearer to the next
frame than the one before; `Carries.next` is one step. A finalizer that has started is a path of its
own, which by `sound` ends in the scope in which it began.
-/

namespace Fibers

variable {σ : Type} {A B : Ty}

/-! ### Frames -/

/-- A handler for expected errors: it raises any other cause again and runs nothing. -/
def Handler.Selective (handler : Handler σ) : Prop :=
  ∀ cause, cause.isFail = false → handler.recover cause = .done (.failNow cause)

/-- A frame as effects make them, unless it is a handler of all causes. -/
inductive Frame.Made : Frame σ → Prop where
  /-- A plain continuation. -/
  | plain (continuation : Continuation σ) : Made (.apply continuation)
  /-- A handler of expected errors. -/
  | selective {onFailure : Cause → Code σ (Node σ)} {onSuccess : Continuation σ}
      (selective : (Handler.branches onFailure onSuccess).Selective) :
      Made (.fold (.branches onFailure onSuccess))
  /-- A finalizer of a user. -/
  | finalizer {effect : Node σ} (authored : effect.Authored) : Made (.fold (.finalizer effect))
  /-- The end of a region with an environment or an interrupt status of its own. -/
  | restorer {node : Node σ} (restorer : node.Restorer) : Made (.fold (.finalizer node))

/-- The finalizer of a user in a frame. -/
def Frame.finalizer? : Frame σ → Option (Node σ)
  | .fold (.finalizer .leaveScope) => none
  | .fold (.finalizer (.restoreStatus _)) => none
  | .fold (.finalizer effect) => some effect
  | _ => none

namespace Effect

/-- The frame of `foldEffect`: an error goes to the handler, and any other cause passes. -/
theorem made_foldEffect (effect : Effect σ A) (onError : String → Code σ (Effect σ B))
    (onSuccess : A.Carrier → Code σ (Effect σ B)) :
    ∃ handler, (effect.foldEffect onError onSuccess).node = .fold effect.node handler ∧
      (Frame.fold handler).Made ∧ ∀ error, handler.recover (.fail error) =
        (onError error).bind fun next => .done next.node := by
  refine ⟨_, rfl, .selective fun cause other => ?_, fun error => rfl⟩
  cases cause with
  | fail => cases other
  | die | interrupt => rfl

theorem made_fold (effect : Effect σ A) (onError : String → Code σ B.Carrier)
    (onSuccess : A.Carrier → Code σ B.Carrier) :
    ∃ handler, (effect.fold onError onSuccess).node = .fold effect.node handler ∧
      (Frame.fold handler).Made ∧ ∀ error, handler.recover (.fail error) =
        ((onError error).bind fun value => .done (succeedNow value : Effect σ B)).bind
          fun next => .done next.node :=
  made_foldEffect effect _ _

theorem made_catchAll (effect : Effect σ A) (handler : String → Code σ (Effect σ A)) :
    ∃ branches, (effect.catchAll handler).node = .fold effect.node branches ∧
      (Frame.fold branches).Made ∧ ∀ error, branches.recover (.fail error) =
        (handler error).bind fun next => .done next.node :=
  made_foldEffect effect _ _

end Effect

/-! ### The course of a cause -/

/-- Where an effect stands: the environments around it, innermost first, and its interrupt status.
-/
structure Scope where
  environments : List Erased
  status : InterruptStatus

/-- The scope around the innermost environment. -/
def Scope.leave (scope : Scope) : Scope := { scope with environments := scope.environments.tail }

/-- Where a fiber stands. -/
def Holding.scope (holding : Holding) : Scope := ⟨holding.environments, holding.flags.status⟩

/-- A finalizer that a cause meets, the frames under it, and the scope of both. -/
structure Visit (σ : Type) where
  effect : Node σ
  rest : List (Frame σ)
  scope : Scope

/-- What a handler does with a cause, the frames under it, and the scope of both. -/
structure Landing (σ : Type) where
  code : Code σ (Node σ)
  rest : List (Frame σ)
  scope : Scope

/-- The finalizers that a cause meets on its way down, in this order, and where it lands, if
anywhere. -/
structure Course (σ : Type) where
  visits : List (Visit σ) := []
  landing : Option (Landing σ) := none

/-- Some finalizers come first. -/
def Course.after (course : Course σ) (visits : List (Visit σ)) : Course σ :=
  { course with visits := visits ++ course.visits }

@[simp] theorem Course.after_nil (course : Course σ) : course.after [] = course := rfl

namespace Strand

/-- The course of a cause through some frames from a scope. -/
def course (cause : Cause) : List (Frame σ) → Scope → Course σ
  | [], _ => {}
  | .apply _ :: rest, scope => course cause rest scope
  | .fold (.branches onFailure _) :: rest, scope =>
    if cause.isFail then { landing := some ⟨onFailure cause, rest, scope⟩ }
    else course cause rest scope
  | .fold (.finalizer .leaveScope) :: rest, scope => course cause rest scope.leave
  | .fold (.finalizer (.restoreStatus status)) :: rest, scope =>
    course cause rest { scope with status := status }
  | .fold (.finalizer effect) :: rest, scope =>
    (course cause rest scope).after [⟨effect, rest, scope⟩]

variable {cause : Cause} {stack : List (Frame σ)}

theorem course_append_apply (dropped : List (Continuation σ)) (scope : Scope) :
    course cause (dropped.map .apply ++ stack) scope = course cause stack scope := by
  induction dropped with
  | nil => rfl
  | cons continuation dropped ih => exact ih

theorem course_finalizer {effect : Node σ} (authored : effect.Authored) (scope : Scope) :
    course cause (.fold (.finalizer effect) :: stack) scope =
      (course cause stack scope).after [⟨effect, stack, scope⟩] := by
  cases authored <;> rfl

/-- A cause that is not an expected error lands nowhere. -/
theorem landing_course (other : cause.isFail = false) (scope : Scope) :
    (course cause stack scope).landing = none := by
  fun_induction course cause stack scope with
  | case1 => rfl
  | case3 _ _ _ _ error => cases other.symm.trans error
  | case2 | case4 | case5 | case6 | case7 => assumption

/-- Neither handlers of expected errors nor regions keep a cause that is not an expected error from
the finalizers under them. -/
theorem visits_course (other : cause.isFail = false) (scope : Scope) :
    (course cause stack scope).visits.map Visit.effect = stack.filterMap Frame.finalizer? := by
  fun_induction course cause stack scope with
  | case1 => rfl
  | case3 _ _ _ _ error => cases other.symm.trans error
  | case2 _ _ _ ih | case4 _ _ _ _ _ ih | case5 _ _ ih | case6 _ _ _ ih => exact ih
  | case7 effect rest scope leaves restores ih =>
    have own : (Frame.fold (.finalizer effect)).finalizer? = some effect := by
      unfold Frame.finalizer?
      split <;> simp_all
    rw [List.filterMap_cons_some own]
    exact congrArg (effect :: ·) ih

/-! ### Between finalizers -/

/-- A cause is on its way through some frames, and no user code runs. It takes so many steps at most
to the end of the frames, if it meets no finalizer. -/
inductive Carries (cause : Cause) : List (Frame σ) → Nat → Strand σ → Prop where
  | raised (stack : List (Frame σ)) (holding : Holding) :
      Carries cause stack (8 * stack.length) ⟨.active (.cause cause) stack, holding, false⟩
  | raising (stack : List (Frame σ)) (holding : Holding) :
      Carries cause stack (8 * stack.length + 1)
        ⟨.active (.raising (.done cause)) stack, holding, false⟩
  | polling (stack : List (Frame σ)) (holding : Holding) :
      Carries cause stack (8 * stack.length + 2)
        ⟨.active (.node (.failNow cause)) stack, holding, false⟩
  | built (stack : List (Frame σ)) (holding : Holding) :
      Carries cause stack (8 * stack.length + 3)
        ⟨.active (.building (.done (.failNow cause))) stack, holding, false⟩
  /-- What was above the cause has ended. -/
  | kept (value : Erased) (stack : List (Frame σ)) (holding : Holding) (calling : Bool) :
      Carries cause stack (8 * stack.length + 4)
        ⟨.active (.value value) (keeper (.failure cause) :: stack), holding, calling⟩
  /-- A region ends above the cause. -/
  | restoring {restorer : Node σ} (restores : restorer.Restorer) (rest : List (Frame σ))
      (holding : Holding) :
      Carries cause (.fold (.finalizer restorer) :: rest) (8 * rest.length + 5)
        ⟨.active (.node restorer) (keeper (.failure cause) :: rest), holding, false⟩
  /-- A finalizer or the end of a region is next. -/
  | due (effect : Node σ) (rest : List (Frame σ)) (holding : Holding) :
      Carries cause (.fold (.finalizer effect) :: rest) (8 * rest.length + 6)
        ⟨.active (.node (effect.andThen (.failNow cause))) rest, holding, false⟩
  | ending (effect : Node σ) (rest : List (Frame σ)) (holding : Holding) :
      Carries cause (.fold (.finalizer effect) :: rest) (8 * rest.length + 7)
        ⟨.active (.building (.done (effect.andThen (.failNow cause)))) rest, holding, false⟩

/-- What one step does with a cause on its way. -/
inductive Carried (cause : Cause) (stack : List (Frame σ)) (ahead : Nat) (before after : Strand σ) :
    Prop where
  /-- It comes nearer to its end, on the same course. -/
  | falls {stack' : List (Frame σ)} {ahead' : Nat} (suffix : stack' <:+ stack)
      (carries : Carries cause stack' ahead' after) (nearer : ahead' < ahead)
      (course : course cause stack' after.holding.scope = course cause stack before.holding.scope)
  /-- A finalizer starts above it. -/
  | starts {effect : Node σ} {rest : List (Frame σ)}
      (top : stack = .fold (.finalizer effect) :: rest)
      (authored : effect.Authored) (starts : Starts effect (.failure cause) rest before after)
      (kept : after.holding = before.holding) (nearer : 8 * rest.length + 4 < ahead)
  /-- A handler of expected errors has it. -/
  | lands {dropped : List (Continuation σ)} {onFailure : Cause → Code σ (Node σ)}
      {onSuccess : Continuation σ} {rest : List (Frame σ)} (error : cause.isFail = true)
      (top : stack = dropped.map .apply ++ .fold (.branches onFailure onSuccess) :: rest)
      (lands : after = ⟨.active (.building (onFailure cause)) rest, before.holding, false⟩)
      (nearer : 0 < ahead)

variable {before after : Strand σ} {input : Option (Input σ)} {ahead : Nat}

/-- The innermost handler takes a cause. -/
theorem carried_of_handled {handler : Handler σ} {rest : List (Frame σ)} {holding : Holding}
    (found : unwind stack = some (handler, rest)) (made : ∀ frame ∈ stack, frame.Made) :
    Carried cause stack (8 * stack.length) ⟨.active (.cause cause) stack, holding, false⟩
      ⟨.active (.building (handler.recover cause)) rest, holding, false⟩ := by
  obtain ⟨dropped, rfl⟩ := unwind_eq_some_iff.mp found
  have suffix := List.suffix_append (dropped.map Frame.apply) (.fold handler :: rest)
  have longer := suffix.length_le
  rw [List.length_cons] at longer
  cases made (.fold handler) (List.mem_append_right _ List.mem_cons_self) with
  | selective selective =>
    cases error : cause.isFail with
    | true => exact .lands error rfl rfl (by omega)
    | false =>
      rw [selective cause error]
      refine .falls ((List.suffix_cons _ _).trans suffix) (.built rest holding) (by omega) ?_
      rw [course_append_apply, course, if_neg (by simp [error])]
  | finalizer | restorer =>
    refine .falls suffix (.ending _ rest holding) (by omega) ?_
    rw [course_append_apply]

/-- One step of a fiber takes a cause nearer to its end, or to a finalizer or a handler. Nothing
reaches the fiber from outside in it. -/
theorem Carries.next (h : Carries cause stack ahead before) (made : ∀ frame ∈ stack, frame.Made)
    (undue : before.holding.flags.shouldInterrupt = false) (step : before.Step input after) :
    input = none ∧ Carried cause stack ahead before after := by
  cases h with
  | raised _ holding =>
    obtain ⟨handler, rest, found, rfl, rfl⟩ := step.of_cause
    exact ⟨rfl, carried_of_handled found made⟩
  | raising _ holding =>
    obtain ⟨rfl, rfl⟩ := step.of_raised
    exact ⟨rfl, .falls List.suffix_rfl (.raised _ _) (by omega) rfl⟩
  | polling _ holding =>
    cases step.interprets undue
    exact ⟨rfl, .falls List.suffix_rfl (.raising _ _) (by omega) rfl⟩
  | built _ holding =>
    obtain ⟨rfl, rfl⟩ := step.of_built
    exact ⟨rfl, .falls List.suffix_rfl (.polling _ _) (by omega) rfl⟩
  | kept value _ holding calling =>
    obtain ⟨rfl, rfl⟩ := step.of_reaches_apply (.value value)
    exact ⟨rfl, .falls List.suffix_rfl (.built _ _) (by omega) rfl⟩
  | restoring restores rest holding =>
    have meaning := step.interprets undue
    cases restores with
    | restoreStatus status =>
      obtain ⟨rfl, rfl⟩ := interprets_restoreStatus meaning
      exact ⟨rfl, .falls (List.suffix_cons _ _) (.kept _ _ _ _) (by omega) rfl⟩
    | leaveScope =>
      obtain ⟨rfl, rfl⟩ := interprets_leaveScope meaning
      exact ⟨rfl, .falls (List.suffix_cons _ _) (.kept _ _ _ _) (by omega) rfl⟩
  | due effect rest holding =>
    cases step.interprets undue
    refine ⟨rfl, ?_⟩
    cases made _ List.mem_cons_self with
    | finalizer authored => exact .starts rfl authored ⟨rfl, rfl⟩ rfl (by omega)
    | restorer restores =>
      exact .falls List.suffix_rfl (.restoring restores _ _) (by omega) rfl
  | ending effect rest holding =>
    obtain ⟨rfl, rfl⟩ := step.of_built
    exact ⟨rfl, .falls List.suffix_rfl (.due _ _ _) (by omega) rfl⟩

/-! ### The whole way -/

/-- A fiber works above a stack. -/
structure Within (strand : Strand σ) (stack : List (Frame σ)) : Prop where
  above : stack <:+ strand.place.stack
  inside : ∀ exit, ¬strand.place.Reaches stack exit

/-- How far a cause has come. -/
inductive Stage where
  /-- It is on its way. -/
  | falling
  /-- It waits under a finalizer. -/
  | visiting
  /-- A finalizer has failed, and its own cause is on its way. -/
  | failed
  /-- A handler has it. -/
  | landed
  deriving DecidableEq

/-- What becomes of a cause in a stretch, from some moment on. Outside the finalizers that it meets
there are at most as many steps as the first number says. Two courses say what is ahead of it, at
first and in the end. -/
inductive Descends (cause : Cause) (strands : Nat → Strand σ) (last : Nat) :
    Nat → Nat → Course σ → Stage → Course σ → Prop where
  /-- It has come so far. -/
  | falling {stack : List (Frame σ)} {ahead budget : Nat}
      (carries : Carries cause stack ahead (strands last)) (enough : ahead ≤ budget) :
      Descends cause strands last budget last (course cause stack (strands last).holding.scope)
        .falling (course cause stack (strands last).holding.scope)
  | rests {budget n : Nat} {course left : Course σ} {stage : Stage} (lt : n < last)
      (rests : strands (n + 1) = strands n)
      (later : Descends cause strands last budget (n + 1) course stage left) :
      Descends cause strands last budget n course stage left
  /-- It falls by one step, in which nothing reaches the fiber from outside. -/
  | falls {budget n ahead : Nat} {stack : List (Frame σ)} {course left : Course σ} {stage : Stage}
      (lt : n < last) (carries : Carries cause stack ahead (strands n))
      (step : (strands n).Step none (strands (n + 1)))
      (later : Descends cause strands last budget (n + 1) course stage left) :
      Descends cause strands last (budget + 1) n course stage left
  /-- A finalizer starts in its scope, and goes on to the end of the stretch. -/
  | visits {budget n : Nat} {visit : Visit σ} {course : Course σ} (lt : n < last)
      (starts : Starts visit.effect (.failure cause) visit.rest (strands n) (strands (n + 1)))
      (scope : (strands (n + 1)).holding.scope = visit.scope)
      (inside : ∀ m, n < m → m ≤ last →
        (strands m).Within (keeper (.failure cause) :: visit.rest)) :
      Descends cause strands last (budget + 1) n (course.after [visit]) .visiting course
  /-- A finalizer starts in its scope, and fails. -/
  | fails {budget n finish : Nat} {visit : Visit σ} {course : Course σ} {cause' : Cause}
      (lt : n < last)
      (starts : Starts visit.effect (.failure cause) visit.rest (strands n) (strands (n + 1)))
      (scope : (strands (n + 1)).holding.scope = visit.scope) (le : finish ≤ last)
      (leaves : Leaves strands (n + 1) finish (keeper (.failure cause) :: visit.rest)
        (.failure cause')) :
      Descends cause strands last (budget + 1) n (course.after [visit]) .failed course
  /-- A finalizer starts in its scope, and succeeds in it; then the cause goes on. -/
  | succeeds {budget n finish : Nat} {visit : Visit σ} {course left : Course σ} {value : Erased}
      {stage : Stage} (lt : n < last)
      (starts : Starts visit.effect (.failure cause) visit.rest (strands n) (strands (n + 1)))
      (scope : (strands (n + 1)).holding.scope = visit.scope) (le : finish ≤ last)
      (leaves : Leaves strands (n + 1) finish (keeper (.failure cause) :: visit.rest)
        (.success value))
      (kept : (strands finish).holding.scope = visit.scope)
      (later : Descends cause strands last budget finish course stage left) :
      Descends cause strands last (budget + 1) n (course.after [visit]) stage left
  /-- A handler takes the cause in its scope. The frames under it are there until the effect that
  the handler builds has exited. -/
  | lands {budget n : Nat} {landing : Landing σ} {holding : Holding} (lt : n < last)
      (lands : strands (n + 1) = ⟨.active (.building landing.code) landing.rest, holding, false⟩)
      (scope : holding.scope = landing.scope)
      (above : ∀ m, n < m → m ≤ last →
        (∀ k, n < k → k < m → ∀ exit, ¬(strands k).place.Reaches landing.rest exit) →
        landing.rest <:+ (strands m).place.stack) :
      Descends cause strands last (budget + 1) n { landing := some landing } .landed {}

section Descent

variable {strands : Nat → Strand σ} {feed : Nat → Option (Option (Input σ))} {first last : Nat}

theorem Fed.stretch (fed : Fed strands feed first last) : Stretch strands first last := by
  intro n low high
  have now := fed n low high
  cases given : feed n with
  | none =>
    rw [given] at now
    exact now ▸ .refl _
  | some input =>
    rw [given] at now
    exact .of_step now

/-- A finalizer that starts goes on to the end of a stretch, or it comes to its own end and leaves
its scope as it was. -/
theorem Fed.visit (fed : Fed strands feed first last)
    (undue : ∀ n, first ≤ n → n < last → (strands n).holding.flags.shouldInterrupt = false)
    {n : Nat} (low : first ≤ n) {effect : Node σ} (authored : effect.Authored)
    {exit : Exit Erased} (starts : Starts effect exit stack (strands n) (strands (n + 1))) :
    (∀ m, n < m → m ≤ last → (strands m).Within (keeper exit :: stack)) ∨
      ∃ finish result, finish ≤ last ∧
        Leaves strands (n + 1) finish (keeper exit :: stack) result ∧
        (strands finish).holding.scope = (strands (n + 1)).holding.scope := by
  by_cases reached : ∃ m result, n < m ∧ m ≤ last ∧
      (strands m).place.Reaches (keeper exit :: stack) result
  · obtain ⟨m, _, low', high, reaches⟩ := reached
    obtain ⟨finish, result, le, leaves⟩ := exists_leaves low' reaches
    have le_last := le.trans high
    refine .inr ⟨finish, result, le_last, leaves, ?_⟩
    have path : Path Anyhow (keeper exit :: stack) (strands (n + 1)) (taken feed (n + 1) finish)
        (stepsOf feed (n + 1) finish) (strands finish) :=
      Fed.path (fun m low' high => fed m (by omega) (by omega)) leaves.le
        (fun m low' high => undue m (by omega) (by omega)) leaves.inside
        fun _ _ _ _ _ => trivial
    have begins : strands (n + 1) = ⟨.active (.node effect) (keeper exit :: stack),
        (strands (n + 1)).holding, (strands (n + 1)).calling⟩ := by rw [← starts.2]
    rw [begins] at path
    obtain ⟨-, environments, flags⟩ := sound _ authored path leaves.reaches
    rw [Holding.scope, environments, flags]
    rfl
  · have inside : ∀ m, n < m → m ≤ last → ∀ result,
        ¬(strands m).place.Reaches (keeper exit :: stack) result :=
      fun m low' high result reaches => reached ⟨m, result, low', high, reaches⟩
    refine .inl fun m low' high => ⟨?_, inside m low' high⟩
    refine (fed.stretch.mono (Nat.le_succ_of_le low) high).above low' ?_
      fun k low'' high' => inside k low'' (high'.le.trans high)
    rw [starts.2]
    exact List.suffix_rfl

/-- While no interruption is due, a cause takes its course. -/
theorem Fed.descends (fed : Fed strands feed first last)
    (undue : ∀ n, first ≤ n → n < last → (strands n).holding.flags.shouldInterrupt = false)
    (le : first ≤ last) (made : ∀ frame ∈ stack, frame.Made)
    (carries : Carries cause stack ahead (strands first)) {budget : Nat} (enough : ahead ≤ budget) :
    ∃ stage left, Descends cause strands last budget first
      (course cause stack (strands first).holding.scope) stage left := by
  -- On the time that is left: a step leaves less of it, and so does a whole finalizer.
  induction time : last - first using Nat.strong_induction_on
    generalizing first stack ahead budget with
  | _ time ih =>
    rcases Nat.eq_or_lt_of_le le with rfl | lt
    · exact ⟨.falling, _, .falling carries enough⟩
    have later {moment : Nat} (low : first < moment) (high : moment ≤ last)
        {stack' : List (Frame σ)} {ahead' budget' : Nat} (suffix : stack' <:+ stack)
        (carries : Carries cause stack' ahead' (strands moment)) (enough : ahead' ≤ budget') :
        ∃ stage left, Descends cause strands last budget' moment
          (course cause stack' (strands moment).holding.scope) stage left :=
      ih (last - moment) (by omega) (fun n low' => fed n (low.le.trans low'))
        (fun n low' => undue n (low.le.trans low')) high
        (fun frame mem => made frame (suffix.subset mem)) carries enough rfl
    have now := fed first le_rfl lt
    cases given : feed first with
    | none =>
      -- Nothing is fed, so the strand rests.
      rw [given] at now
      have carries' : Carries cause stack ahead (strands (first + 1)) := now ▸ carries
      obtain ⟨stage, left, descends⟩ :=
        later (Nat.lt_succ_self first) lt List.suffix_rfl carries' enough
      rw [now] at descends
      exact ⟨stage, left, .rests lt now descends⟩
    | some input =>
      rw [given] at now
      obtain ⟨rfl, carried⟩ := carries.next made (undue first le_rfl lt) now
      cases budget with
      | zero =>
        cases carried <;> omega
      | succ budget =>
        cases carried with
        | falls suffix carries' nearer same =>
          -- The frame that it falls past is none of its course.
          obtain ⟨stage, left, descends⟩ :=
            later (Nat.lt_succ_self first) lt suffix carries'
              (Nat.le_of_lt_succ (nearer.trans_le enough))
          rw [same] at descends
          exact ⟨stage, left, .falls lt carries now descends⟩
        | @starts effect rest top authored starts kept nearer =>
          subst top
          rw [course_finalizer authored]
          have scope : (strands (first + 1)).holding.scope = (strands first).holding.scope :=
            congrArg Holding.scope kept
          -- The finalizer is still running at the end, or it finishes by then.
          rcases fed.visit undue le_rfl authored starts with inside |
            ⟨finish, result, high, leaves, same⟩
          · exact ⟨_, _, .visits lt starts scope inside⟩
          · have kept := same.trans scope
            cases result with
            | failure cause' => exact ⟨_, _, .fails lt starts scope high leaves⟩
            | success value =>
              -- It has kept the cause for its last frame, which hands it on to the frames below.
              have place := leaves.reaches
              have carries' : Carries cause rest (8 * rest.length + 4) (strands finish) := by
                generalize strands finish = strand at place
                obtain ⟨place, holding, calling⟩ := strand
                cases place
                exact .kept value rest holding calling
              obtain ⟨stage, left, descends⟩ :=
                later leaves.le high (List.suffix_cons _ _) carries'
                  (Nat.le_of_lt_succ (nearer.trans_le enough))
              rw [kept] at descends
              exact ⟨stage, left, .succeeds lt starts scope high leaves kept descends⟩
        | @lands dropped onFailure onSuccess rest error top lands nearer =>
          have stands : course cause stack (strands first).holding.scope =
              { landing := some ⟨onFailure cause, rest, (strands first).holding.scope⟩ } := by
            rw [top, course_append_apply, course, if_pos error]
          rw [stands]
          refine ⟨_, _, .lands lt lands rfl fun m low high inside => ?_⟩
          -- The recovery runs above the frames of its landing until it is over.
          have begins : rest <:+ (strands (first + 1)).place.stack := by
            rw [lands]
            exact List.suffix_rfl
          exact (fed.stretch.mono (Nat.le_succ first) high).above low begins inside

/-- Who has come to the end of all frames has come to the end of the frames above a stack. -/
theorem Within.not_ended {strand : Strand σ} {exit : Exit Erased} (h : strand.Within stack) :
    ¬strand.place.Reaches [] exit := by
  obtain ⟨above, inside⟩ := h
  obtain ⟨place, holding, calling⟩ := strand
  intro ended
  cases ended with
  | value value =>
    cases List.suffix_nil.mp above
    exact inside _ (.value value)
  | cause cause dropped =>
    rcases suffix_append_apply above with ⟨first, under, rfl, rfl⟩ | under
    · refine inside (.failure cause) ?_
      rw [List.map_append, List.append_assoc]
      exact .cause cause first
    · cases List.suffix_nil.mp under
      exact inside _ (.cause cause dropped)

/-- A fiber whose cause waits under a finalizer does not end. -/
theorem Descends.not_ended {budget : Nat} {ahead left : Course σ} {stage : Stage}
    (h : Descends cause strands last budget first ahead stage left) (visiting : stage = .visiting)
    (exit : Exit Erased) : ¬(strands last).place.Reaches [] exit := by
  induction h with
  | rests _ _ _ ih | falls _ _ _ _ ih | succeeds _ _ _ _ _ _ _ ih => exact ih visiting
  | visits lt _ _ inside => exact (inside last lt le_rfl).not_ended
  | falling | fails | lands => cases visiting

/-- A cause gets to a handler only if its course says so. -/
theorem Descends.landing {budget : Nat} {ahead left : Course σ} {stage : Stage}
    (h : Descends cause strands last budget first ahead stage left) (landed : stage = .landed) :
    ahead.landing ≠ none := by
  induction h with
  | rests _ _ _ ih | falls _ _ _ _ ih | succeeds _ _ _ _ _ _ _ ih => exact ih landed
  | lands => exact Option.some_ne_none _
  | falling | visits | fails => cases landed

/-- A cause that is on its way is carried through the frames that are ahead of it. -/
theorem Descends.carries {budget : Nat} {ahead left : Course σ} {stage : Stage}
    (h : Descends cause strands last budget first ahead stage left) (falling : stage = .falling) :
    ∃ stack ahead, Carries cause stack ahead (strands last) ∧
      left = course cause stack (strands last).holding.scope := by
  induction h with
  | falling carries => exact ⟨_, _, carries, rfl⟩
  | rests _ _ _ ih | falls _ _ _ _ ih | succeeds _ _ _ _ _ _ _ ih => exact ih falling
  | visits | fails | lands => cases falling

/-- A fiber that ends with a cause on its way ends with this cause, and there is nothing ahead of
it. -/
theorem Carries.ends (h : Carries cause stack ahead before) {exit : Exit Erased}
    (ended : before.place.Reaches [] exit) (scope : Scope) :
    exit = .failure cause ∧ course cause stack scope = {} := by
  cases h with
  | raised _ holding =>
    generalize same : Place.active (.cause cause) stack = place at ended
    cases ended with
    | value => cases same
    | cause _ dropped =>
      cases same
      exact ⟨rfl, course_append_apply dropped scope⟩
  | raising | polling | built | kept | restoring | due | ending => cases ended

end Descent

end Strand

end Fibers
