import Fibers.Proofs.Strand.ZipPar
import Fibers.Proofs.World.Isolation
import Fibers.Proofs.World.Supply

/-!
# Two fibers against one

A fiber runs two effects in parallel: it forks the first one, runs the second one by itself and
joins its child. Elsewhere a fiber runs the same two effects in sequence.

## Main results

`World.zipPar_agrees`: on whatever executors and in whatever order both fibers run, each effect runs
once, and the exit is that of the sequence unless both effects fail.

## Proof strategy

`World.Working.zips` cuts the stretch of the parent at the fork, at both ends of the second effect
and at the join. What the two effects come to there is what they mean (`World.Working.means`), and
the sequence means their combination.
-/

namespace Fibers

variable {σ : Type} {A B : Ty} {given : Given σ}

namespace Strand

variable {before after : Strand σ} {input : Option (Input σ)} {exit : Exit Erased}
  {strands : Nat → Strand σ} {feed : Nat → Option (Option (Input σ))} {first last n m : Nat}

/-- A fiber that has come down to the bottom takes no step. -/
theorem Step.not_at_bottom (step : before.Step input after)
    (reaches : before.place.Reaches [] exit) : False := by
  obtain ⟨place, holding, calling⟩ := before
  cases reaches with
  | value value =>
    obtain ⟨_, _, nobody, _⟩ := step.of_value
    cases nobody
  | cause cause dropped =>
    have nobody : unwind (dropped.map .apply ++ [] : List (Frame σ)) = none :=
      unwind_eq_none_iff.mpr ⟨dropped, List.append_nil _⟩
    obtain ⟨_, _, found, _⟩ := step.of_cause
    cases nobody.symm.trans found

theorem Fed.stays_at_bottom (fed : Fed strands feed first last) (low : first ≤ n) (le : n ≤ m)
    (high : m ≤ last) (reaches : (strands n).place.Reaches [] exit) : strands m = strands n := by
  rcases Fed.rests_or_steps (fun k low' high' => fed k low' (high'.trans_le high)) low le with
    stays | ⟨_, _, _, _, _, step⟩
  · exact stays m le le_rfl
  · exact (step.not_at_bottom reaches).elim

end Strand

namespace World

open Strand Effect

variable {run : Nat → World σ} {id child : FiberId} {first last n late : Nat}
  {stack : List (Frame σ)} {strands : Nat → Strand σ} {feed : Nat → Option (Option (Input σ))}
  {holding : Holding} {calling : Bool} {exit own : Exit Erased} {left : Effect σ A}
  {right : Effect σ B}

/-! ### Work that ends a fiber -/

theorem Scene.Shows.unended {world : World σ} {strand : Strand σ}
    (shows' : world.scene.Shows id strand) (owned : world.scene.Owned) :
    world.heap.poll id = none :=
  (owned.placed shows'.place).2

/-- The last moment before a fiber ends, at which it is still there and at the bottom. -/
theorem Run.exists_last_step (h : Run run) {strand : Strand σ}
    (born : (run n).scene.Shows id strand) (ended : (run late).heap.poll id = some own) :
    ∃ m strands, n ≤ m ∧ m < late ∧ strands n = strand ∧ Follows run id strands n m ∧
      (strands m).place.Reaches [] own := by
  obtain ⟨m, low, high, running, ends⟩ :=
    h.exists_end (Scene.Shows.unended born (h.owned n)) ended
  have there : (run m).places id ≠ 0 := by
    intro gone
    have lost := h.lost (h.knows_stays low born.knows) gone running
    cases ends.symm.trans (lost (m + 1) m.le_succ).2
  obtain ⟨strands, begins, follows⟩ := h.exists_follows born low there
  rcases (follows.seen m low le_rfl).moves (h.owned m) (h.moves m) with
    ⟨next, later, _⟩ | ⟨_, reaches⟩
  · cases ends.symm.trans (Scene.Shows.unended later (h.owned (m + 1)))
  · exact ⟨m, strands, low, high, begins, follows, reaches own ends⟩

/-- A fiber that nobody asks for interruption has worked on its effect until it came to its exit. -/
theorem Run.exists_worked (h : Run run) {effect : Node σ}
    (born : (run n).scene.Shows id ⟨.active (.node effect) [], holding, calling⟩)
    (ended : (run late).heap.poll id = some own)
    (unrequested : ∀ m, n ≤ m → m ≤ late → (run m).heap.isRequested id = false) :
    ∃ strands feed died, died < late ∧
      Working run id effect [] holding strands feed n died ∧
      (strands died).place.Reaches [] own := by
  obtain ⟨m, strands, low, high, begins, follows, reaches⟩ := h.exists_last_step born ended
  have settled : Settled run id n m := .inl fun k low' high' =>
    unrequested k low' (high'.trans high.le)
  obtain ⟨⟨feed, fed⟩, _⟩ := follows.fed h low settled
  -- From the first moment at the bottom on, the fiber rests.
  obtain ⟨died, exit, le, leaves⟩ := exists_leaves low reaches
  have stays := fed.stays_at_bottom leaves.le le le_rfl leaves.reaches
  refine ⟨strands, feed, died, le.trans_lt high, ?_, stays ▸ reaches⟩
  refine follows.working h fed (fun k low' high' => ?_) begins le_rfl leaves.le le leaves.inside
  exact (follows.seen k low' high').isRequested.symm.trans (unrequested k low' (high'.trans high.le))

/-- A child that has ended worked on its effect from the fork on, in the environments and on the
executor of its parent. -/
theorem Forks.exists_worked {effect : Node σ} (forks : Forks run id child effect n) (h : Run run)
    (ended : (run late).heap.poll child = some own)
    (unrequested : ∀ m, n < m → m ≤ late → (run m).heap.isRequested child = false) :
    ∃ strands feed died, died < late ∧
      Working run child effect []
        ⟨{}, (run n).heap.environments id, (run n).heap.executorOf id⟩ strands feed (n + 1) died ∧
      (strands died).place.Reaches [] own := by
  have newborn := forks.newborn h
  rcases newborn.place with place | gone
  · have born : (run (n + 1)).scene.Shows child ⟨.active (.node effect) [],
        ⟨{}, (run n).heap.environments id, (run n).heap.executorOf id⟩, true⟩ :=
      ⟨forks.knows, place, ⟨_, newborn.state, rfl⟩, nofun⟩
    exact h.exists_worked born ended unrequested
  · have running : (run (n + 1)).heap.poll child = none := Heap.poll_of_fiber? newborn.state
    have lost := h.lost forks.knows gone running
    rcases le_total (n + 1) late with later | earlier
    · cases ended.symm.trans (lost late later).2
    · cases running.symm.trans (h.poll_stays earlier ended)

/-- A child is not its parent. -/
theorem Forks.ne {effect : Node σ} (forks : Forks run id child effect n) (h : Run run) :
    child ≠ id := by
  obtain ⟨i, thread, stack, steps, next, _, rfl⟩ := forks
  intro same
  exact (run n).heap.not_knows_nextFiber (same ▸ ((h.owned n).placed (steps.places h next)).1)

/-! ### The stages of the parent -/

/-- A run that begins with nothing, on executors that take every task, in which callbacks receive
what is given for them. -/
structure Orderly (run : Nat → World σ) (given : Given σ) : Prop where
  fresh : (run 0).Fresh
  willing : ∀ n executor, (run n).heap.refusal? executor = none
  supplies : Supplies run given

/-- A fiber forks one effect, then runs another one by itself, then awaits the exit of its child of
some type. All other steps that it takes are silent. -/
structure Zips (run : Nat → World σ) (id child : FiberId) (type : Ty) (forked own : Node σ)
    (frames : List (Frame σ)) (holding : Holding) (strands : Nat → Strand σ)
    (feed : Nat → Option (Option (Input σ))) (first fork begun ended last : Nat)
    (outcome : Exit Erased) : Prop where
  low : first ≤ fork
  before : Quiet strands first fork
  asks : ∃ frames calling,
    strands fork = ⟨.active (.node (.fork forked)) frames, holding, calling⟩
  forks : Forks run id child forked fork
  mid : fork < begun
  between : Quiet strands (fork + 1) begun
  works : Working run id own frames holding strands feed begun ended
  comes : (strands ended).place.Reaches frames outcome
  after : ∃ asks told frames, ended ≤ asks ∧ asks ≤ told ∧ told ≤ last ∧
    Quiet strands ended asks ∧ Waits run id child type frames strands asks told ∧
    Quiet strands told last

theorem Working.shouldInterrupt {effect : Node σ}
    (working : Working run id effect stack holding strands feed first last) (low : first ≤ n)
    (high : n ≤ last) : (strands n).holding.flags.shouldInterrupt = false := by
  simp [InterruptFlags.shouldInterrupt, working.unrequested n low high]

/-- Work is over when the fiber comes down to its frames. -/
theorem Working.ends {effect : Node σ}
    (working : Working run id effect stack holding strands feed first last) (low : first ≤ n)
    (high : n ≤ last) (reaches : (strands n).place.Reaches stack exit) : n = last := by
  rcases Nat.eq_or_lt_of_le high with same | before
  · exact same
  · exact absurd reaches (working.inside n low before exit)

/-- Work on an effect above one more continuation is a part of the work above the frames below. -/
theorem Working.upper {effect upper : Node σ} {continuation : Continuation σ} {holding' : Holding}
    (working : Working run id effect stack holding strands feed first last)
    (reaches : (strands last).place.Reaches stack exit) (low : first ≤ n) (high : n ≤ last)
    (begins : strands n =
      ⟨.active (.node upper) (.apply continuation :: stack), holding', calling⟩) :
    ∃ ended outcome, ended ≤ last ∧
      Working run id upper (.apply continuation :: stack) holding' strands feed n ended ∧
      (strands ended).place.Reaches (.apply continuation :: stack) outcome := by
  have stretch : Stretch strands n last := working.follows.stretch.mono low le_rfl
  have reached : ∃ m exit, n ≤ m ∧ m ≤ last ∧
      (strands m).place.Reaches (.apply continuation :: stack) exit := by
    by_contra none
    have above : .apply continuation :: stack <:+ (strands last).place.stack := by
      refine stretch.above high ?_ fun m low' high' exit reaches =>
        none ⟨m, exit, low', high'.le, reaches⟩
      rw [begins]
      exact List.suffix_rfl
    exact none ⟨last, exit, high, le_rfl, reaches.of_above_apply above⟩
  obtain ⟨m, _, low', high', reaches'⟩ := reached
  obtain ⟨ended, outcome, le, leaves⟩ := exists_leaves low' reaches'
  exact ⟨ended, outcome, le.trans high',
    working.part begins low leaves.le (le.trans high') leaves.inside, leaves.reaches⟩

/-- A parent that has run the second effect fails with its cause, or joins its child. -/
theorem Working.joins {effect : Node σ} {outcome : Exit Erased}
    (working : Working run id effect stack holding strands feed first last) (tame : Tame run)
    (observation : Observation run) (unshared : Unshared run id)
    (reaches : (strands last).place.Reaches stack exit) (low : first ≤ n) (high : n ≤ last)
    (knows : (run n).heap.Knows child)
    (comes : (strands n).place.Reaches (.using (pairing child A B) :: stack) outcome) :
    ∃ asks told frames, n ≤ asks ∧ asks ≤ told ∧ told ≤ last ∧ Quiet strands n asks ∧
      Waits run id child A frames strands asks told ∧ Quiet strands told last ∧
      ((∃ cause, outcome.recover B = .failure cause ∧ exit = .failure cause) ∨
        ∃ own, (run last).heap.poll child = some own ∧
          exit = ((own.recover A).beside (outcome.recover B)).erase) := by
  have h := working.origin
  have undue : ∀ n, first ≤ n → n ≤ last → (strands n).holding.flags.shouldInterrupt = false :=
    fun _ low high => working.shouldInterrupt low high
  have still (m : Nat) (frames : List (Frame σ)) : Quiet strands m m ∧
      Waits run id child A frames strands m m :=
    ⟨fun k low high => absurd low (Nat.not_le.mpr high),
      fun k low high => absurd low (Nat.not_le.mpr high)⟩
  generalize place_eq : (strands n).place = place at comes
  cases comes with
  | cause cause dropped =>
    -- The cause passes the continuation, so the fiber has come down to the frames already.
    have reached : (strands n).place.Reaches stack (.failure cause) := by
      rw [place_eq]
      exact Place.Reaches.of_apply (.cause cause dropped)
    obtain rfl := working.ends low high reached
    exact ⟨n, n, [], le_rfl, le_rfl, le_rfl, (still n []).1, (still n []).2, (still n []).1,
      .inl ⟨cause, rfl, reaches.unique reached⟩⟩
  | value value =>
    have stands : strands n = ⟨.active (.value value) (.using (pairing child A B) :: stack),
        (strands n).holding, (strands n).calling⟩ := by rw [← place_eq]
    cases recovered : value.recover B with
    | error cause =>
      -- A value of another type is a defect, and the child is not asked at all.
      obtain ⟨m, low', high', fails, quiet⟩ := working.fed.leads_above undue reaches low high
        (stands ▸ leadsAbove_mismatch recovered List.suffix_rfl _ _)
      have reached : (strands m).place.Reaches stack (.failure cause) := by
        rw [fails]
        exact .cause cause []
      obtain rfl := working.ends (low.trans low') high' reached
      refine ⟨m, m, [], low', le_rfl, le_rfl, quiet, (still m []).2, (still m []).1,
        .inl ⟨cause, ?_, reaches.unique reached⟩⟩
      simp only [Exit.recover, Exit.bind, recovered, Exit.ofExcept]
    | ok b =>
      obtain rfl := (Erased.recover_eq_ok_iff _ _ _).mp recovered
      -- The parent awaits its child, is told the exit, and pairs it with its own value.
      obtain ⟨asks, low₁, high₁, awaits, quiet⟩ := working.fed.leads_above undue reaches low high
        (stands ▸ leadsAbove_beside child b stack _ _)
      rcases working.follows.awaits h tame observation unshared working.fed undue (low.trans low₁)
        high₁ (h.knows_stays low₁ knows) awaits with
        ⟨told, own, calling', low₂, high₂, waits, ended, goes⟩ | waiting
      · obtain ⟨place, leads, reached⟩ :=
          leadsAbove_told (own.recover A) b stack (strands n).holding calling'
        obtain ⟨m, low₃, high₃, comes, quiet'⟩ := working.fed.leads_above undue reaches
          (low.trans (low₁.trans low₂)) high₂ (goes ▸ leads)
        rw [← show (strands m).place = place from congrArg Strand.place comes] at reached
        obtain rfl := working.ends (low.trans (low₁.trans (low₂.trans low₃))) high₃ reached
        refine ⟨asks, told, _, low₁, low₂, high₂, quiet, waits, quiet',
          .inr ⟨own, h.poll_stays low₃ ended, ?_⟩⟩
        have known : Exit.recover B (.success ⟨B, b⟩) = .success b :=
          Exit.recover_erase (.success b)
        rw [reaches.unique reached, known]
      · exact absurd reaches (waiting.unreached exit)

/-- A fiber that has run two effects in parallel went through these stages. -/
theorem Working.zips
    (working : Working run id (left.zipPar right).node stack holding strands feed first last)
    (tame : Tame run) (observation : Observation run) (unshared : Unshared run id)
    (reaches : (strands last).place.Reaches stack exit) :
    ∃ child fork begun ended frames outcome,
      Zips run id child A left.node right.node frames holding strands feed first fork begun ended
        last outcome ∧
      ((∃ cause, outcome.recover B = .failure cause ∧ exit = .failure cause) ∨
        ∃ own, (run last).heap.poll child = some own ∧
          exit = ((own.recover A).beside (outcome.recover B)).erase) := by
  have h := working.origin
  have undue : ∀ n, first ≤ n → n ≤ last → (strands n).holding.flags.shouldInterrupt = false :=
    fun _ low high => working.shouldInterrupt low high
  obtain ⟨calling, begins⟩ := working.begins
  obtain ⟨m, low₁, high₁, asks, quiet₁⟩ := working.fed.leads_above undue reaches le_rfl working.le
    (begins ▸ leadsAbove_zipPar left right stack holding calling)
  rcases working.follows.forks h tame working.fed undue low₁ high₁ asks with
    ⟨fork, child, low₂, high₂, stays, forks, made⟩ | resting
  · have low₂' : first ≤ fork + 1 := (low₁.trans low₂).trans fork.le_succ
    obtain ⟨begun, low₃, high₃, begins', quiet₂⟩ := working.fed.leads_above undue reaches low₂'
      high₂ (made ▸ leadsAbove_forked child right stack holding true)
    obtain ⟨ended, outcome, high₄, works, comes⟩ :=
      working.upper reaches (low₂'.trans low₃) high₃ begins'
    have knows : (run ended).heap.Knows child :=
      h.knows_stays (low₃.trans works.le) forks.knows
    obtain ⟨wait, told, frames, low₅, low₆, high₆, quiet₃, waits, quiet₄, exits⟩ :=
      working.joins tame observation unshared reaches ((low₂'.trans low₃).trans works.le) high₄
        knows comes
    exact ⟨child, fork, begun, ended, _, outcome,
      ⟨low₁.trans low₂, quiet₁.trans stays.quiet,
        ⟨_, _, (stays fork low₂ le_rfl).trans asks⟩, forks, low₃, quiet₂, works, comes,
        wait, told, frames, low₅, low₆, high₆, quiet₃, waits, quiet₄⟩, exits⟩
  · rw [resting] at reaches
    cases reaches

section Zips

variable {effect forked other : Node σ} {frames : List (Frame σ)} {type : Ty}
  {fork begun ended : Nat} {outcome : Exit Erased}

theorem Zips.fork_lt (zips : Zips run id child type forked other frames holding strands feed first
    fork begun ended last outcome) : fork < last := by
  obtain ⟨_, _, _, le₁, le₂, le₃, _⟩ := zips.after
  exact zips.mid.trans_le (zips.works.le.trans (le₁.trans (le₂.trans le₃)))

/-- The child is forked in the environments of the work. -/
theorem Zips.environments (zips : Zips run id child type forked other frames holding strands feed
      first fork begun ended last outcome)
    (working : Working run id effect stack holding strands feed first last) :
    (run fork).heap.environments id = holding.environments := by
  obtain ⟨_, _, asks⟩ := zips.asks
  obtain ⟨fiber, present, same⟩ := (working.follows.seen fork zips.low zips.fork_lt.le).holding
  have present : (run fork).heap.fiber? id = some fiber := present
  have same : fiber.holding = holding := same.trans (congrArg Strand.holding asks)
  rw [Heap.environments, present, ← same]
  rfl

end Zips

/-- A fiber that has run two pure effects in parallel has run each of them once. It comes to the
cause of the second one, or else to that of the first one, or else to the pair of their values. A
fiber that runs them in sequence, in the same environments and in whatever run, comes to the same
unless both of them fail. -/
theorem zipPar_agrees (orderly : Orderly run given) (unshared : Unshared run id)
    (left_pure : left.Pure given) (right_pure : right.Pure given)
    (working : Working run id (left.zipPar right).node stack holding strands feed first last)
    (reaches : (strands last).place.Reaches stack exit) :
    ∃ child fork begun ended frames outcome,
      Zips run id child A left.node right.node frames holding strands feed first fork begun ended
        last outcome ∧
      ∀ late own, (run late).heap.poll child = some own →
        (∀ n, fork < n → n ≤ late → (run n).heap.isRequested child = false) →
        (∃ strands feed died, died < late ∧
          Working run child left.node []
            ⟨{}, holding.environments, (run fork).heap.executorOf id⟩ strands feed (fork + 1) died ∧
          (strands died).place.Reaches [] own) ∧
        exit = ((own.recover A).beside (outcome.recover B)).erase ∧
        ∀ {run' : Nat → World σ} {id' : FiberId} {stack' : List (Frame σ)} {holding' : Holding}
          {strands' : Nat → Strand σ} {feed' : Nat → Option (Option (Input σ))}
          {first' last' : Nat} {exit' : Exit Erased},
          Orderly run' given → holding'.environments = holding.environments →
          Working run' id' (left.zip right).node stack' holding' strands' feed' first' last' →
          (strands' last').place.Reaches stack' exit' →
          exit' = ((own.recover A).inTurn (outcome.recover B)).erase ∧
            ((own.recover A).isSuccess = true ∨ (outcome.recover B).isSuccess = true →
              exit' = exit) := by
  have h := working.origin
  have tame := h.tame orderly.fresh orderly.willing
  have observation := completion_observed h orderly.fresh orderly.willing
  obtain ⟨child, fork, begun, ended, frames, outcome, zips, exits⟩ :=
    working.zips tame observation unshared reaches
  refine ⟨child, fork, begun, ended, frames, outcome, zips, fun late own polled unrequested => ?_⟩
  -- The exit of the child is the same whenever it is looked at.
  have result : exit = ((own.recover A).beside (outcome.recover B)).erase := by
    rcases exits with ⟨cause, failed, rfl⟩ | ⟨other, polled', rfl⟩
    · rw [failed]
      rfl
    · have same : some other = some own := by
        rcases le_total last late with later | earlier
        · exact (h.poll_stays later polled').symm.trans polled
        · exact polled'.symm.trans (h.poll_stays earlier polled)
      rw [Option.some.inj same]
  have inherited : (run fork).heap.environments id = holding.environments :=
    zips.environments working
  have worked := zips.forks.exists_worked h polled unrequested
  rw [inherited] at worked
  refine ⟨worked, result, ?_⟩
  obtain ⟨strands₁, feed₁, died, _, work, ends⟩ := worked
  -- Both effects are pure, so what they have come to here they come to anywhere.
  have first_means := work.means tame orderly.supplies left_pure ends
  have second_means := zips.works.means tame orderly.supplies right_pure zips.comes
  intro run' id' stack' holding' strands' feed' first' last' exit' orderly' same working' reaches'
  have means := working'.means (working'.origin.tame orderly'.fresh orderly'.willing)
    orderly'.supplies (left_pure.zip right_pure) reaches'
  rw [same] at means
  have sequence := means.of_zip first_means second_means
  refine ⟨sequence, fun one => ?_⟩
  rw [sequence, result, Exit.beside_eq_inTurn one]

/-! ### A read beside an answer -/

/-- The value with which a registration completes its callback at once, if it does so. -/
def atOnce : Given Nat := fun register => (register ⟨0⟩).completes?.map Prod.snd

/-- Whether an activation completes the first callback with nothing but the unit, if it does so at
all, and hands out no other callback for a registration that completes it at once. -/
def answersUnit (heap : Heap Nat) : Activation Nat → Bool
  | .loop _ (.node (.async register)) _ =>
    (atOnce register).all fun value => heap.nextCallback = ⟨0⟩ ∧ value.type = .unit
  | activation => activation.completes?.all fun told => told.1 ≠ ⟨0⟩ ∨ told.2.type = .unit

theorem eq_unit_of_type {value : Erased} (same : value.type = .unit) : value = .unit := by
  obtain ⟨type, content⟩ := value
  cases same
  rfl

/-- A trial in which this is so of everything that happens. -/
theorem supplies_staged {program : Code Nat Unit}
    (answers : ∀ n ≤ last, (trial 0 program n).main.next?.all
      (answersUnit (trial 0 program n).heap) = true)
    (idle : (trial 0 program last).main.control = [])
    (calm : (trial 0 program last).main.panicking = none) :
    Supplies (staged 0 program) atOnce := by
  rintro callback register value ⟨n, i, thread, id, stack, steps, next, _, rfl⟩ known j m value'
    ⟨thread', activation, steps', next', completes⟩
  obtain ⟨k, le, world, rfl⟩ := steps.of_staged idle calm next
  obtain ⟨l, le', _, rfl⟩ := steps'.of_staged idle calm next'
  have hands := answers k le
  have tells := answers l le'
  rw [next, Option.all_some, answersUnit, known, Option.all_some, decide_eq_true_eq] at hands
  rw [world, hands.1] at completes
  have own : activation.completes?.all (fun told => told.1 ≠ ⟨0⟩ ∨ told.2.type = .unit) = true := by
    rw [next', Option.all_some] at tells
    unfold answersUnit at tells
    split at tells
    · cases completes
    · exact tells
  rw [completes, Option.all_some, decide_eq_true_eq] at own
  have told : value' = .unit := eq_unit_of_type (own.resolve_left (not_not_intro rfl))
  rw [told, eq_unit_of_type hands.2]

/-- An effect that reads the environment that it is provided with. -/
def reading : Effect Nat .int := (environment : Effect Nat .int).provide (R := .int) 5

/-- An effect that gets its answer at once. -/
def answering : Effect Nat .unit := async fun callback => complete (A := .unit) callback ()

theorem pure_reading : reading.Pure atOnce := pure_environment.provide _

theorem pure_answering : answering.Pure atOnce :=
  pure_async rfl fun _ => Action.certain_complete _ _

/-- The first fiber of a trial works on its effect until it comes to its exit. -/
theorem exists_worked_staged {effect : Effect Nat A}
    (starts : (staged 0 (launched effect) 2).scene.Shows ⟨1⟩
      ⟨.active (.node effect.node) [], ⟨{}, [], ⟨0⟩⟩, false⟩)
    (calm : ∀ n ≤ late, (trial 0 (launched effect) n).heap.isRequested ⟨1⟩ = false)
    (ended : (staged 0 (launched effect) (late + 1)).heap.poll ⟨1⟩ = some own) :
    ∃ strands feed died, died < late + 1 ∧
      Working (staged 0 (launched effect)) ⟨1⟩ effect.node [] ⟨{}, [], ⟨0⟩⟩ strands feed 2 died ∧
      (strands died).place.Reaches [] own := by
  have unrequested : ∀ n, 2 ≤ n → n ≤ late + 1 →
      (staged 0 (launched effect) n).heap.isRequested ⟨1⟩ = false := by
    intro n low high
    cases n with
    | zero => cases low
    | succ n => exact calm n (Nat.le_of_succ_le_succ high)
  exact (run_staged 0 (launched effect)).exists_worked starts ended unrequested

/-- Trials with executors that run every task at once are orderly. -/
theorem orderly_staged {program : Code Nat Unit}
    (inline : ∀ n ≤ last, ∀ executor ∈ (trial 0 program n).heap.executors.toList,
      executor.discipline = .inline)
    (answers : ∀ n ≤ last, (trial 0 program n).main.next?.all
      (answersUnit (trial 0 program n).heap) = true)
    (idle : (trial 0 program last).main.control = [])
    (calm : (trial 0 program last).main.panicking = none) : Orderly (staged 0 program) atOnce :=
  ⟨fresh_bare 0, willing_staged inline idle calm, supplies_staged answers idle calm⟩

/-- One effect beside the other, and one after the other. -/
def programs : Bool → Code Nat Unit
  | true => launched (reading.zipPar answering)
  | false => launched (reading.zip answering)

/-- The child is still waiting to run when its parent has its answer and asks for the exit. Both
orders come to the same pair. -/
theorem zipPar_agrees_answering :
    (∃ strands feed last fork begun ended frames outcome,
      Zips (staged 0 (programs true)) ⟨1⟩ ⟨2⟩ .int reading.node answering.node frames ⟨{}, [], ⟨0⟩⟩
        strands feed 2 fork begun ended last outcome) ∧
      (staged 0 (programs true) 48).heap.poll ⟨1⟩ = some (.success ⟨.pair .int .unit, 5, ()⟩) ∧
      (staged 0 (programs false) 48).heap.poll ⟨1⟩ =
        (staged 0 (programs true) 48).heap.poll ⟨1⟩ := by
  have inline : ∀ both, ∀ n ≤ 47, ∀ executor ∈ (trial 0 (programs both) n).heap.executors.toList,
      executor.discipline = .inline := by decide
  have answers : ∀ both, ∀ n ≤ 47, (trial 0 (programs both) n).main.next?.all
      (answersUnit (trial 0 (programs both) n).heap) = true := by decide
  have keeps : ∀ n ≤ 47, (trial 0 (programs true) n).main.next?.all (keepsTo ⟨1⟩) = true := by
    decide
  have calm : ∀ both, ∀ n ≤ 47, (trial 0 (programs both) n).heap.isRequested ⟨1⟩ = false := by
    decide
  have calm' : ∀ n ≤ 47, (trial 0 (programs true) n).heap.isRequested ⟨2⟩ = false := by
    decide
  have ends : (staged 0 (programs true) 48).heap.poll ⟨1⟩ =
      some (.success ⟨.pair .int .unit, 5, ()⟩) := rfl
  have polled : (staged 0 (programs true) 48).heap.poll ⟨2⟩ = some (.success ⟨.int, 5⟩) := rfl
  have orderly (both : Bool) : Orderly (staged 0 (programs both)) atOnce := by
    cases both
    · exact orderly_staged (inline false) (answers false) rfl rfl
    · exact orderly_staged (inline true) (answers true) rfl rfl
  obtain ⟨strands, feed, last, early, working, reaches⟩ :=
    exists_worked_staged (shows_trial rfl rfl rfl rfl) (calm true) ends
  obtain ⟨child, fork, begun, ended, frames, outcome, zips, agrees⟩ :=
    zipPar_agrees (orderly true) (unshared_staged keeps rfl rfl) pure_reading pure_answering working
      reaches
  -- There are two fibers, and the child is not its parent.
  obtain rfl : child = ⟨2⟩ := by
    obtain ⟨index, small, rfl⟩ := working.origin.knows_stays (zips.fork_lt.trans early)
      zips.forks.knows
    have few : (staged 0 (programs true) 48).heap.fibers.size = 2 := rfl
    have other := zips.forks.ne working.origin
    have small : index < 2 := few ▸ small
    interval_cases index
    · exact absurd rfl other
    · rfl
  have unrequested : ∀ n, fork < n → n ≤ 48 →
      (staged 0 (programs true) n).heap.isRequested ⟨2⟩ = false := by
    intro n low high
    cases n with
    | zero => cases low
    | succ n => exact calm' n (Nat.le_of_succ_le_succ high)
  obtain ⟨_, _, sequence⟩ := agrees 48 _ polled unrequested
  refine ⟨⟨strands, feed, last, fork, begun, ended, frames, outcome, zips⟩, ends, ?_⟩
  cases ended' : (staged 0 (programs false) 48).heap.poll ⟨1⟩ with
  | none => cases ended'
  | some own =>
    obtain ⟨strands', feed', last', _, working', reaches'⟩ :=
      exists_worked_staged (shows_trial rfl rfl rfl rfl) (calm false) ended'
    obtain ⟨_, same⟩ := sequence (orderly false) rfl working' reaches'
    rw [same (.inl rfl), ends]

end World

end Fibers
