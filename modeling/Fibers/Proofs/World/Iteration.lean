import Fibers.Proofs.World.ZipPar
import Mathlib.Data.ENat.Basic

/-!
# Loops

A loop runs one effect over and over, as often as it says or until the effect fails. It has no
counter and no stack of its own: each run leaves one frame behind, which builds the rest of the
loop.

## Main results

`World.iteration_law`: up to any moment a fiber has made some runs one after another, all but the
last of which succeeded, each above exactly one frame more than the loop, and has taken nothing but
silent steps between them. If it has come down from the loop, then after all the runs or with the
cause of the last one.

## Proof strategy

`Strand.Unfolds` relates a loop to what is left of it after one run. `World.Working.round` follows
the fiber through one run, and `World.Loop.iterates` goes on with what is left, by induction on the
length of the stretch.
-/

namespace Fibers

variable {σ : Type} {A : Ty}

namespace Strand

open Effect

/-! ### The steps of a loop -/

/-- One loop runs an effect above one frame. After the run, the frame goes on with another loop,
unless the outcome of the effect stops it with a cause. -/
structure Unfolds (effect : Node σ) (stops : Exit Erased → Option Cause) (loop rest : Node σ)
    (frame : Continuation σ) : Prop where
  begins : ∀ {stack holding calling},
    LeadsAbove stack ⟨.active (.node loop) stack, holding, calling⟩
      ⟨.active (.node effect) (.apply frame :: stack), holding, false⟩
  goesOn : ∀ {value stack holding calling}, stops (.success value) = none →
    LeadsAbove stack ⟨.active (.value value) (.apply frame :: stack), holding, calling⟩
      ⟨.active (.node rest) stack, holding, false⟩
  ends : ∀ {value cause stack holding calling}, stops (.success value) = some cause →
    LeadsAbove stack ⟨.active (.value value) (.apply frame :: stack), holding, calling⟩
      ⟨.active (.cause cause) stack, holding, false⟩
  fails : ∀ cause, stops (.failure cause) = some cause

/-- The cause of an outcome that is no value of a type. -/
def missed (A : Ty) (outcome : Exit Erased) : Option Cause := (outcome.recover A).cause?

theorem missed_success (A : Ty) (value : Erased) :
    missed A (.success value) = match value.recover A with
      | .ok _ => none
      | .error cause => some cause := by
  unfold missed Exit.recover Exit.bind
  dsimp only
  cases value.recover A <;> rfl

theorem unfolds_repeated (effect : Effect σ A) (n : Nat) :
    ∃ frame, Unfolds effect.node (missed A) (effect.repeated (n + 1)).node (effect.repeated n).node
      frame := by
  refine ⟨.call (typed fun _ : A.Carrier => .done (effect.repeated n)), ?_, ?_, ?_, fun _ => rfl⟩
  · exact leadsAbove_flatMap List.suffix_rfl effect _ _ _
  · intro value stack holding calling goes
    rw [missed_success] at goes
    split at goes
    next a recovered =>
      obtain rfl := (Erased.recover_eq_ok_iff _ _ _).mp recovered
      exact leadsAbove_using rfl List.suffix_rfl holding calling
    next => cases goes
  · intro value cause stack holding calling stopped
    rw [missed_success] at stopped
    split at stopped
    next => cases stopped
    next other mismatch =>
      cases stopped
      exact leadsAbove_mismatch mismatch List.suffix_rfl holding calling

theorem unfolds_forever (effect : Effect σ A) :
    Unfolds effect.node Exit.cause? effect.forever.node effect.forever.node
      (.again effect.node) where
  begins := Silent.above (.flatMap _ _ _ _ _) (List.suffix_cons _ _)
  goesOn _ := (Silent.above (.value _ _ _ _ _) List.suffix_rfl).trans
    (Silent.above (.built _ _ _) List.suffix_rfl)
  ends := nofun
  fails _ := rfl

/-- A family of loops around one effect, each with the number of runs that it makes: a loop that
makes none is over, and any other one goes on with one that makes one run less. -/
def Loop (effect : Node σ) (stops : Exit Erased → Option Cause) (loops : Node σ → ℕ∞ → Prop) :
    Prop :=
  ∀ loop count, loops loop count → count = 0 ∧ loop = Node.unit ∨
    ∃ rest left frame, count = left + 1 ∧ Unfolds effect stops loop rest frame ∧ loops rest left

theorem loop_repeated (effect : Effect σ A) :
    Loop effect.node (missed A) fun loop count =>
      ∃ n : Nat, loop = (effect.repeated n).node ∧ count = n := by
  rintro loop count ⟨n, rfl, rfl⟩
  cases n with
  | zero => exact .inl ⟨rfl, rfl⟩
  | succ n =>
    obtain ⟨frame, unfolds⟩ := unfolds_repeated effect n
    exact .inr ⟨_, n, frame, by push_cast; rfl, unfolds, n, rfl, rfl⟩

theorem loop_forever (effect : Effect σ A) :
    Loop effect.node Exit.cause? fun loop count => loop = effect.forever.node ∧ count = ⊤ := by
  rintro loop count ⟨rfl, rfl⟩
  exact .inr ⟨_, ⊤, _, rfl, unfolds_forever effect, rfl, rfl⟩

end Strand

namespace World

open Strand Effect

variable {run : Nat → World σ} {id : FiberId} {first mid last n : Nat} {effect : Node σ}
  {frames stack : List (Frame σ)} {frame : Continuation σ} {entry holding : Holding}
  {calling : Bool} {strands : Nat → Strand σ} {feed : Nat → Option (Option (Input σ))}
  {outcomes : List (Exit Erased)}
  {exit : Exit Erased}

/-! ### Parts of a stretch -/

/-- Work that begins within a stretch lasts until the fiber comes down from it, or to the end. -/
theorem Working.within {upper : Node σ}
    (working : Working run id effect stack holding strands feed first last) (low : first ≤ n)
    (high : n ≤ last) {holding' : Holding}
    (begins : strands n = ⟨.active (.node upper) frames, holding', calling⟩) :
    ∃ ended ≤ last, Working run id upper frames holding' strands feed n ended ∧
      ((∃ outcome, (strands ended).place.Reaches frames outcome) ∨
        ended = last ∧ ∀ outcome, ¬(strands last).place.Reaches frames outcome) := by
  have part {ended : Nat} (later : n ≤ ended) := working.part begins low later
  by_cases reached : ∃ m exit, n ≤ m ∧ m ≤ last ∧ (strands m).place.Reaches frames exit
  · obtain ⟨m, _, low', high', reaches⟩ := reached
    obtain ⟨ended, outcome, le, leaves⟩ := exists_leaves low' reaches
    exact ⟨ended, le.trans high', part leaves.le (le.trans high') leaves.inside,
      .inl ⟨outcome, leaves.reaches⟩⟩
  · have inside : ∀ m, n ≤ m → m ≤ last → ∀ exit, ¬(strands m).place.Reaches frames exit :=
      fun m low' high' exit reaches => reached ⟨m, exit, low', high', reaches⟩
    exact ⟨last, le_rfl, part high le_rfl fun m low' high' => inside m low' high'.le,
      .inr ⟨rfl, inside last high le_rfl⟩⟩

/-- What comes last in a stretch of work is work above the same frames. -/
theorem Working.rest {later : Node σ}
    (working : Working run id effect stack holding strands feed first last) (low : first ≤ n)
    (high : n ≤ last) {holding' : Holding}
    (begins : strands n = ⟨.active (.node later) stack, holding', calling⟩) :
    Working run id later stack holding' strands feed n last := by
  obtain ⟨ended, le, part, ends⟩ := working.within low high begins
  rcases ends with ⟨outcome, reaches⟩ | ⟨rfl, _⟩
  · obtain rfl := working.ends (low.trans part.le) le reaches
    exact part
  · exact part

/-! ### Runs of the effect -/

/-- A fiber begins to run the effect of a loop above one frame more than the loop, in the
environments and with the flags with which the loop was entered, and it has not come down to that
frame before some other moment. -/
structure Iteration (run : Nat → World σ) (id : FiberId) (effect : Node σ)
    (frame : Continuation σ) (stack : List (Frame σ)) (entry : Holding) (strands : Nat → Strand σ)
    (feed : Nat → Option (Option (Input σ))) (begun last : Nat) : Prop where
  keeps : entry.Keeps (strands begun).holding
  works : Working run id effect (.apply frame :: stack) (strands begun).holding strands feed begun
    last

/-- From one moment to another, a fiber has run the effect of a loop with these outcomes, one run
after the other, and has taken nothing but silent steps besides. -/
inductive Iterated (run : Nat → World σ) (id : FiberId) (effect : Node σ) (stack : List (Frame σ))
    (entry : Holding) (strands : Nat → Strand σ) (feed : Nat → Option (Option (Input σ))) :
    Nat → List (Exit Erased) → Nat → Prop where
  | none {first last : Nat} (le : first ≤ last) (quiet : Quiet strands first last) :
      Iterated run id effect stack entry strands feed first [] last
  | next {first begun ended last : Nat} {frame : Continuation σ} {outcome : Exit Erased}
      {outcomes : List (Exit Erased)} (le : first ≤ begun) (quiet : Quiet strands first begun)
      (iteration : Iteration run id effect frame stack entry strands feed begun ended)
      (comes : (strands ended).place.Reaches (.apply frame :: stack) outcome)
      (later : Iterated run id effect stack entry strands feed ended outcomes last) :
      Iterated run id effect stack entry strands feed first (outcome :: outcomes) last

theorem Iterated.of_quiet (le : first ≤ mid) (quiet : Quiet strands first mid)
    (iterated : Iterated run id effect stack entry strands feed mid outcomes last) :
    Iterated run id effect stack entry strands feed first outcomes last := by
  cases iterated with
  | none le' quiet' => exact .none (le.trans le') (quiet.trans quiet')
  | next le' quiet' iteration comes later =>
    exact .next (le.trans le') (quiet.trans quiet') iteration comes later

/-- What a fiber has made of a loop up to some moment. -/
inductive Iterates (run : Nat → World σ) (id : FiberId) (effect : Node σ)
    (stops : Exit Erased → Option Cause) (count : ℕ∞) (stack : List (Frame σ)) (entry : Holding)
    (strands : Nat → Strand σ) (feed : Nat → Option (Option (Input σ))) (first last : Nat) :
    List (Exit Erased) → Prop where
  /-- It is on its way to the next run, or out of the loop, which depends on nobody else. -/
  | between {outcomes : List (Exit Erased)} (most : outcomes.length ≤ count)
      (earlier : ∀ outcome ∈ outcomes.dropLast, stops outcome = none)
      (iterated : Iterated run id effect stack entry strands feed first outcomes last)
      (goes : ∃ next, (strands last).Silent next)
      (inside : ∀ exit, ¬(strands last).place.Reaches stack exit) :
      Iterates run id effect stops count stack entry strands feed first last outcomes
  /-- It is in the middle of one more run. -/
  | running {outcomes : List (Exit Erased)} {frame : Continuation σ} {begun : Nat}
      (more : outcomes.length < count) (earlier : ∀ outcome ∈ outcomes, stops outcome = none)
      (iterated : Iterated run id effect stack entry strands feed first outcomes begun)
      (iteration : Iteration run id effect frame stack entry strands feed begun last)
      (inside : ∀ exit, ¬(strands last).place.Reaches (.apply frame :: stack) exit) :
      Iterates run id effect stops count stack entry strands feed first last outcomes
  /-- All runs have succeeded, and it has come down with nothing. -/
  | finished {outcomes : List (Exit Erased)} (all : outcomes.length = count)
      (earlier : ∀ outcome ∈ outcomes, stops outcome = none)
      (iterated : Iterated run id effect stack entry strands feed first outcomes last)
      (comes : (strands last).place.Reaches stack (.success .unit)) :
      Iterates run id effect stops count stack entry strands feed first last outcomes
  /-- The last run has failed, and it has come down with the cause. -/
  | stopped {outcomes : List (Exit Erased)} {outcome : Exit Erased} {cause : Cause}
      (most : outcomes.length < count) (earlier : ∀ outcome ∈ outcomes, stops outcome = none)
      (fails : stops outcome = some cause)
      (iterated : Iterated run id effect stack entry strands feed first (outcomes ++ [outcome])
        last)
      (comes : (strands last).place.Reaches stack (.failure cause)) :
      Iterates run id effect stops count stack entry strands feed first last (outcomes ++ [outcome])

/-- A run that has succeeded comes before all others. -/
theorem Iterates.next {stops : Exit Erased → Option Cause} {left : ℕ∞} {outcome : Exit Erased}
    (iterates : Iterates run id effect stops left stack entry strands feed mid last outcomes)
    (succeeds : stops outcome = none)
    (before : ∀ {outcomes last},
      Iterated run id effect stack entry strands feed mid outcomes last →
      Iterated run id effect stack entry strands feed first (outcome :: outcomes) last) :
    Iterates run id effect stops (left + 1) stack entry strands feed first last
      (outcome :: outcomes) := by
  have longer {outcomes : List (Exit Erased)} :
      ((outcome :: outcomes).length : ℕ∞) = outcomes.length + 1 := by
    rw [List.length_cons, Nat.cast_succ]
  cases iterates with
  | between most earlier iterated goes inside =>
    refine .between ?_ ?_ (before iterated) goes inside
    · rw [longer]
      exact add_le_add_left most 1
    · intro other mem
      cases outcomes with
      | nil => cases mem
      | cons second others =>
        rcases List.mem_cons.mp mem with rfl | mem
        · exact succeeds
        · exact earlier other mem
  | running more earlier iterated iteration inside =>
    refine .running ?_ (List.forall_mem_cons.mpr ⟨succeeds, earlier⟩) (before iterated) iteration
      inside
    rw [longer]
    exact (ENat.add_lt_add_iff_right (by simp)).mpr more
  | finished all earlier iterated comes =>
    refine .finished ?_ (List.forall_mem_cons.mpr ⟨succeeds, earlier⟩) (before iterated) comes
    rw [longer, all]
  | @stopped outcomes last_outcome cause most earlier fails iterated comes =>
    rw [← List.cons_append]
    refine .stopped ?_
      (List.forall_mem_cons.mpr ⟨succeeds, earlier⟩) fails (before iterated) comes
    rw [longer]
    exact (ENat.add_lt_add_iff_right (by simp)).mpr most

/-- After a run that gave a value, a fiber goes on with what is left of the loop, or it leaves the
loop, or it is on its way to one of these. -/
theorem Working.after_run {stops : Exit Erased → Option Cause} {loop whole rest : Node σ}
    {left : ℕ∞} {ended : Nat} {value : Erased} {kept : Holding}
    (working : Working run id loop stack holding strands feed first last)
    (unfolds : Unfolds effect stops whole rest frame) (low : first ≤ ended) (high : ended ≤ last)
    (stands : strands ended = ⟨.active (.value value) (.apply frame :: stack), kept, calling⟩)
    (made : ∀ {outcomes last},
      Iterated run id effect stack entry strands feed ended outcomes last →
      Iterated run id effect stack entry strands feed first (.success value :: outcomes) last) :
    (∃ outcomes, Iterates run id effect stops (left + 1) stack entry strands feed first last
        outcomes) ∨
      stops (.success value) = none ∧ ∃ m, ended < m ∧ Quiet strands ended m ∧
        Working run id rest stack kept strands feed m last := by
  have undue : ∀ n, first ≤ n → n ≤ last → (strands n).holding.flags.shouldInterrupt = false :=
    fun _ low high => working.shouldInterrupt low high
  cases stopped : stops (.success value) with
  | some cause =>
    rcases working.fed.leads_above_or_lags undue low high (stands ▸ unfolds.ends stopped) with
      ⟨m, low', high', fails, quiet⟩ | ⟨quiet, goes, inside⟩
    · have reaches : (strands m).place.Reaches stack (.failure cause) := fails ▸ .cause cause []
      obtain rfl := working.ends (low.trans low') high' reaches
      exact .inl ⟨[] ++ [.success value], .stopped (by simp) nofun stopped
        (made (.none low' quiet)) reaches⟩
    · exact .inl ⟨[.success value], .between (by simp) nofun (made (.none high quiet)) goes inside⟩
  | none =>
    rcases working.fed.leads_above_or_lags undue low high (stands ▸ unfolds.goesOn stopped) with
      ⟨m, low', high', goes, quiet⟩ | ⟨quiet, goes, inside⟩
    -- A value on top of a frame is no node yet, so this takes a step at least.
    · have later : ended ≠ m := by
        rintro rfl
        rw [stands] at goes
        cases goes
      exact .inr ⟨rfl, m, lt_of_le_of_ne low' later, quiet,
        working.rest (low.trans low') high' goes⟩
    · exact .inl ⟨[.success value], .between (by simp) nofun (made (.none high quiet)) goes inside⟩

/-- A fiber that works on a loop makes its runs one after another. -/
theorem Working.iterates {stops : Exit Erased → Option Cause} {loops : Node σ → ℕ∞ → Prop}
    (family : Loop effect stops loops) (authored : effect.Authored) {loop : Node σ} {count : ℕ∞}
    (is_loop : loops loop count) (keeps : entry.Keeps holding)
    (working : Working run id loop stack holding strands feed first last) :
    ∃ outcomes,
      Iterates run id effect stops count stack entry strands feed first last outcomes := by
  -- What is left of a loop after one run is worked on in what is left of the stretch.
  induction length : last - first using Nat.strong_induction_on generalizing
    first loop count holding with
  | _ _ ih =>
    have undue : ∀ n, first ≤ n → n ≤ last → (strands n).holding.flags.shouldInterrupt = false :=
      fun _ low high => working.shouldInterrupt low high
    obtain ⟨calling, enters⟩ := working.begins
    rcases family loop count is_loop with
      ⟨rfl, rfl⟩ | ⟨rest, left, frame, rfl, unfolds, rest_is_loop⟩
    -- No run is left to make: the loop is the unit value.
    · have leads : LeadsAbove stack (strands first)
          ⟨.active (.value .unit) stack, holding, false⟩ :=
        enters ▸ Silent.above (.succeed _ _ _ _) List.suffix_rfl
      rcases working.fed.leads_above_or_lags undue le_rfl working.le leads with
        ⟨m, low, high, comes, quiet⟩ | ⟨quiet, goes, inside⟩
      · have reaches : (strands m).place.Reaches stack (.success .unit) := comes ▸ .value .unit
        obtain rfl := working.ends low high reaches
        exact ⟨[], .finished rfl nofun (.none low quiet) reaches⟩
      · exact ⟨[], .between (by simp) nofun (.none working.le quiet) goes inside⟩
    · rcases working.fed.leads_above_or_lags undue le_rfl working.le
        (enters ▸ unfolds.begins) with ⟨begun, low, high, begins, quiet⟩ | ⟨quiet, goes, inside⟩
      -- A run has begun. By the end of the stretch it is over, or it is under way.
      · obtain ⟨ended, high', works, ends⟩ := working.within low high begins
        have iteration : Iteration run id effect frame stack entry strands feed begun ended := by
          have same : (strands begun).holding = holding := congrArg Strand.holding begins
          exact ⟨same ▸ keeps, same ▸ works⟩
        rcases ends with ⟨outcome, comes⟩ | ⟨rfl, inside⟩
        · have made {outcomes : List (Exit Erased)} {last : Nat}
              (later : Iterated run id effect stack
              entry strands feed ended outcomes last) : Iterated run id effect stack entry strands
              feed first (outcome :: outcomes) last := .next low quiet iteration comes later
          have low' : first ≤ ended := low.trans works.le
          obtain ⟨_, path⟩ := works.path
          obtain ⟨_, kept⟩ := sound _ authored path comes
          cases outcome with
          | failure cause =>
            -- The cause passes the frame, so it has come down from the loop already.
            obtain rfl := working.ends low' high' comes.of_apply
            exact ⟨[] ++ [.failure cause], .stopped (by simp) nofun (unfolds.fails cause)
              (made (.none le_rfl fun k low high => absurd low (Nat.not_le.mpr high)))
              comes.of_apply⟩
          | success value =>
            have stands : strands ended = ⟨.active (.value value) (.apply frame :: stack),
                (strands ended).holding, (strands ended).calling⟩ := by
              generalize place_eq : (strands ended).place = place at comes
              cases comes
              rw [← place_eq]
            rcases working.after_run unfolds low' high' stands made with
              found | ⟨succeeds, m, later, quiet', rest⟩
            · exact found
            -- The next loop begins later, so less of the stretch is left for it.
            · have shorter : last - m < last - first := by
                have := rest.le
                omega
              obtain ⟨outcomes, iterates⟩ :=
                ih (last - m) (length ▸ shorter) rest_is_loop (keeps.trans kept) rest rfl
              exact ⟨.success value :: outcomes, iterates.next succeeds fun iterated =>
                made (iterated.of_quiet later.le quiet')⟩
        · exact ⟨[], .running (by simp) nofun (.none low quiet) iteration inside⟩
      · exact ⟨[], .between (by simp) nofun (.none working.le quiet) goes inside⟩

theorem Iterates.length_le {stops : Exit Erased → Option Cause} {count : ℕ∞}
    (iterates : Iterates run id effect stops count stack entry strands feed first last outcomes) :
    outcomes.length ≤ count := by
  cases iterates with
  | between most => exact most
  | running more => exact more.le
  | finished all => exact all.le
  | stopped most =>
    rw [List.length_append, List.length_singleton, Nat.cast_succ]
    exact Order.add_one_le_of_lt most

/-- Who has come down from a loop has made all runs, or the last one has failed. -/
theorem Iterates.of_reaches {stops : Exit Erased → Option Cause} {count : ℕ∞}
    (iterates : Iterates run id effect stops count stack entry strands feed first last outcomes)
    (reaches : (strands last).place.Reaches stack exit) :
    (exit = .success .unit ∧ outcomes.length = count ∧ ∀ outcome ∈ outcomes, stops outcome = none) ∨
      ∃ earlier outcome cause, outcomes = earlier ++ [outcome] ∧ earlier.length < count ∧
        (∀ outcome ∈ earlier, stops outcome = none) ∧ stops outcome = some cause ∧
        exit = .failure cause := by
  cases iterates with
  | between _ _ _ _ inside => exact absurd reaches (inside exit)
  | running _ _ _ iteration inside =>
    obtain ⟨calling, begins⟩ := iteration.works.begins
    refine absurd (reaches.of_above_apply ?_) (inside exit)
    refine iteration.works.follows.stretch.above iteration.works.le ?_ iteration.works.inside
    rw [begins]
    exact List.suffix_rfl
  | finished all earlier iterated comes => exact .inl ⟨reaches.unique comes, all, earlier⟩
  | stopped most earlier fails iterated comes =>
    exact .inr ⟨_, _, _, rfl, most, earlier, fails, reaches.unique comes⟩

/-- A fiber that repeats an effect makes no more runs than it was told to; it comes down with
nothing after so many runs that all gave a value of the type, or else with the cause of the last
run, the first one that did not. A fiber that runs an effect forever makes runs until one of them
fails, and comes down only with its cause. Every run begins above one frame more than there are
under the loop, in the environments and with the interrupt status from before the loop, wherever the
effect suspends, moves or forks; between the runs the fiber takes nothing but silent steps, and if
it has not come down, it is in the middle of a run or about to take another such step. -/
theorem iteration_law {effect : Effect σ A} (authored : effect.Authored) :
    (∀ {n : Nat} {run : Nat → World σ} {id : FiberId} {stack : List (Frame σ)} {entry : Holding}
        {strands : Nat → Strand σ} {feed : Nat → Option (Option (Input σ))} {first last : Nat},
        Working run id (effect.repeated n).node stack entry strands feed first last →
        ∃ outcomes, outcomes.length ≤ n ∧
          Iterates run id effect.node (missed A) n stack entry strands feed first last outcomes ∧
          ∀ exit, (strands last).place.Reaches stack exit →
            (exit = .success .unit ∧ outcomes.length = n ∧
                ∀ outcome ∈ outcomes, missed A outcome = none) ∨
              ∃ earlier outcome cause, outcomes = earlier ++ [outcome] ∧
                (∀ outcome ∈ earlier, missed A outcome = none) ∧
                missed A outcome = some cause ∧ exit = .failure cause) ∧
      ∀ {run : Nat → World σ} {id : FiberId} {stack : List (Frame σ)} {entry : Holding}
        {strands : Nat → Strand σ} {feed : Nat → Option (Option (Input σ))} {first last : Nat},
        Working run id effect.forever.node stack entry strands feed first last →
        ∃ outcomes,
          Iterates run id effect.node Exit.cause? ⊤ stack entry strands feed first last outcomes ∧
          ∀ exit, (strands last).place.Reaches stack exit →
            ∃ earlier cause, outcomes = earlier ++ [.failure cause] ∧
              (∀ outcome ∈ earlier, outcome.cause? = none) ∧ exit = .failure cause := by
  constructor
  · intro n run id stack entry strands feed first last working
    obtain ⟨outcomes, iterates⟩ :=
      working.iterates (loop_repeated effect) authored ⟨n, rfl, rfl⟩ (.refl entry)
    refine ⟨outcomes, ?_, iterates, fun exit reaches => ?_⟩
    · exact_mod_cast iterates.length_le
    · rcases iterates.of_reaches reaches with
        ⟨rfl, all, succeed⟩ | ⟨earlier, outcome, cause, rfl, _, succeed, fails, rfl⟩
      · exact .inl ⟨rfl, Nat.cast_injective all, succeed⟩
      · exact .inr ⟨earlier, outcome, cause, rfl, succeed, fails, rfl⟩
  · intro run id stack entry strands feed first last working
    obtain ⟨outcomes, iterates⟩ :=
      working.iterates (loop_forever effect) authored ⟨rfl, rfl⟩ (.refl entry)
    refine ⟨outcomes, iterates, fun exit reaches => ?_⟩
    rcases iterates.of_reaches reaches with
      ⟨_, all, _⟩ | ⟨earlier, outcome, cause, rfl, _, succeed, fails, rfl⟩
    · exact absurd all (ENat.natCast_ne_top _)
    -- There is no last run to make, so a failed run is all that can end the loop.
    · cases outcome with
      | success value => cases fails
      | failure => cases fails; exact ⟨earlier, cause, rfl, succeed, rfl⟩

/-- An effect that counts its runs. -/
def counting : Effect Nat .int := .succeed (.modify (· + 1) fun _ => .done 7)

/-- A fiber that repeats the effect comes down with nothing after two runs. -/
theorem iteration_law_counted :
    ∃ strands feed outcomes,
      Working (trial 0 (launched (counting.repeated 2))) ⟨1⟩ (counting.repeated 2).node []
        ⟨{}, [], ⟨0⟩⟩ strands feed 1 14 ∧
      Iterates (trial 0 (launched (counting.repeated 2))) ⟨1⟩ counting.node (missed .int) 2 []
        ⟨{}, [], ⟨0⟩⟩ strands feed 1 14 outcomes ∧ outcomes.length = 2 := by
  have entered : (trial 0 (launched (counting.repeated 2)) 1).scene.Shows ⟨1⟩
      ⟨.active (.node (counting.repeated 2).node) [], ⟨{}, [], ⟨0⟩⟩, false⟩ :=
    shows_trial rfl rfl rfl rfl
  have there : (trial 0 (launched (counting.repeated 2)) 14).places ⟨1⟩ =
      {.active (.value .unit) []} := rfl
  have unrequested : ∀ n, 1 ≤ n → n ≤ 14 → ∀ fiber,
      (trial 0 (launched (counting.repeated 2)) n).heap.fiber? ⟨1⟩ = some fiber →
      fiber.flags.requested = false := by
    intro n low high fiber present
    interval_cases n <;> cases present <;> rfl
  obtain ⟨strands, feed, moment, le, working, ends⟩ :=
    (run_trial 0 (launched (counting.repeated 2))).exists_working entered (by decide)
      (there ▸ Multiset.singleton_ne_zero _) unrequested
  have whole : moment = 14 := by
    rcases ends with same | ⟨exit, reaches⟩
    · exact same
    · by_contra other
      have low := working.le
      have place : ∀ place,
          (trial 0 (launched (counting.repeated 2)) moment).places ⟨1⟩ = {place} →
          place.Reaches [] exit := fun place there =>
        working.follows.place_eq low le_rfl there ▸ reaches
      interval_cases moment
      all_goals first
        | exact other rfl
        | exact nomatch place _ rfl
  subst whole
  have reaches : (strands 14).place.Reaches [] (.success .unit) := by
    rw [working.follows.place_eq (by decide) le_rfl there]
    exact .value _
  obtain ⟨outcomes, -, iterates, exits⟩ :=
    (iteration_law (Effect.authored_succeed _ : counting.Authored)).1 working
  refine ⟨strands, feed, outcomes, working, iterates, ?_⟩
  rcases exits _ reaches with ⟨_, all, _⟩ | ⟨_, _, _, _, _, _, other⟩
  · exact all
  · cases other

end World

end Fibers
