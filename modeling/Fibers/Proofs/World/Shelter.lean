import Fibers.Proofs.Strand.Path
import Fibers.Proofs.Strand.Shelter
import Fibers.Proofs.World.Interruption
import Mathlib.Tactic.IntervalCases

/-!
# Uninterruptible regions and requests

A fiber runs an effect that must not be interrupted. Anybody may ask for its interruption meanwhile,
and nothing tells that they did until the region has been closed.

## Main results

`World.region_sheltered`: a run of an uninterruptible region and its replay with other requests are
alike until the poll behind the region. What the poll does depends on the status from before the
region and on whether the fiber was asked.

## Proof strategy

Worlds stay alike as long as the fiber is immune wherever it polls (`alike_of_immune`). In the
region it is, by what its strand does there; `Stage` follows it to the poll behind the region.
-/

namespace Fibers

variable {σ : Type}

theorem Scene.Shows.status {scene : Scene σ} {id : FiberId} {strand : Strand σ}
    (h : scene.Shows id strand) : scene.heap.status id = strand.holding.flags.status := by
  obtain ⟨fiber, present, same⟩ := h.holding
  rw [Heap.status, present, ← same]
  rfl

theorem Heap.shouldInterrupt_iff {heap : Heap σ} {id : FiberId} :
    heap.shouldInterrupt id = true ↔
      heap.isRequested id = true ∧ heap.status id = .interruptible ∧
        heap.isFinalizing id = false ∧ (heap.fiber? id).isSome := by
  rw [shouldInterrupt, isRequested, status, isFinalizing]
  cases heap.fiber? id with
  | none => simp
  | some fiber => simpa using InterruptFlags.shouldInterrupt_iff

/-- What a fiber has at hand when it begins with an outcome. -/
def Focus.ofExit : Exit Erased → Focus σ
  | .success result => .value result
  | .failure reason => .raising (.done reason)

namespace World

variable {run : Nat → World σ} {choices : Nat → Choice σ} {asked : Nat → Bool} {id : FiberId}
  {n : Nat} {world world' other : World σ} {choice : Choice σ} {stack : List (Frame σ)}
  {exit : Exit Erased} {saved : InterruptStatus} {late : Bool}

/-! ### Immune fibers -/

/-- A choice lets a fiber poll for interruption. -/
def Polls (world : World σ) (choice : Choice σ) (id : FiberId) : Prop :=
  ∃ index thread fiber current stack, choice = .act index ∧
    world.threads[index]? = some thread ∧
    thread.next? = some (.loop fiber (.node current) stack) ∧ fiber.index = id.index

/-- No interruption of the fiber can take effect. -/
def Immune (world : World σ) (id : FiberId) : Prop :=
  world.heap.status id = .uninterruptible ∨ world.heap.isFinalizing id = true

/-- What is alike is interrupted in neither world, if one of them is immune. -/
theorem Alike.not_interrupts (alike : Alike id world other)
    (immune : world.Polls choice id → world.Immune id) : ¬other.Interrupts choice id := by
  rintro ⟨index, thread, rfl, present, fiber, current, stack, next, own, due⟩
  have threads : world.threads = other.threads := by
    have same := congrArg threads (show world.behind _ = other.behind _ from alike)
    exact same
  have status : world.heap.status id = other.heap.status id := by
    have same := congrArg (·.heap.status id) alike
    simpa [behind] using same
  have finalizing : world.heap.isFinalizing id = other.heap.isFinalizing id := by
    have same := congrArg (·.heap.isFinalizing id) alike
    simpa [behind, Heap.isFinalizing_requests] using same
  have due : other.heap.shouldInterrupt id = true := by
    rw [← due, Heap.shouldInterrupt, Heap.shouldInterrupt, other.heap.fiber?_congr own]
  obtain ⟨_, open', fresh, _⟩ := Heap.shouldInterrupt_iff.mp due
  rcases immune ⟨index, thread, fiber, current, stack, rfl, threads ▸ present, next, own⟩ with
    shut | late
  · cases (status.symm.trans shut).symm.trans open'
  · cases (finalizing.symm.trans late).symm.trans fresh

/-- As long as a fiber is immune wherever it polls, a run and its replay are alike. -/
theorem alike_of_immune (made : ∀ n, run (n + 1) = (run n).choose (choices n))
    (immune : ∀ m < n, (run m).Polls (choices m) id → (run m).Immune id) :
    Alike id (run n) (replay id choices asked (run 0) n) := by
  induction n with
  | zero => exact alike_ask _ _ _
  | succ n ih =>
    have alike := ih fun m lt => immune m (Nat.lt_succ_of_lt lt)
    have now := immune n (Nat.lt_succ_self n)
    rw [made, replay]
    have here : ¬(run n).Interrupts (choices n) id := Alike.not_interrupts rfl now
    exact (alike.choose here (alike.not_interrupts now)).trans (alike_ask _ _ _)

theorem Polls.tops {index : Nat} (polls : world.Polls choice (.ofIndex index))
    (owned : world.scene.Owned) :
    ∃ current stack, world.Tops (.ofIndex index) (.node current) stack := by
  obtain ⟨place, thread, fiber, current, stack, _, present, next, own⟩ := polls
  have tops : world.Tops fiber (.node current) stack :=
    ⟨thread, List.mem_of_getElem? present, next⟩
  obtain ⟨holding, shows'⟩ := tops.shows owned
  obtain ⟨number, small, rfl⟩ := shows'.knows
  cases own
  exact ⟨current, stack, tops⟩

/-- What becomes of a loop at a poll before an outcome, in a step of its own thread: it begins with
the outcome, or it is interrupted. -/
inductive Polled (world world' : World σ) (id : FiberId) (exit : Exit Erased)
    (stack : List (Frame σ)) : Prop where
  | interrupted (due : world.heap.shouldInterrupt id = true)
      (fresh : world.heap.isFinalizing id = false) (late : world'.heap.isFinalizing id = true)
      (tops : world'.Tops id (.node (.failNow .interrupt))
        (.apply (.constant (.ofExit exit)) :: stack))
  | begun (undue : world.heap.shouldInterrupt id = false)
      (tops : world'.Tops id (.ofExit exit) stack)

theorem polled_of_acted {thread : Thread σ} (calm : thread.panicking = none)
    (heap : world'.heap = (Machine.stepLoop world.heap thread id stack (.node (.ofExit exit))).1)
    (known : (Machine.stepLoop world.heap thread id stack (.node (.ofExit exit))).2 ∈
      world'.threads) : Polled world world' id exit stack := by
  cases due : world.heap.shouldInterrupt id with
  | true =>
    simp only [Machine.stepLoop, due, if_true] at heap known
    obtain ⟨fresh, late⟩ := isFinalizing_beginInterruption rfl due thread stack (.ofExit exit)
    exact .interrupted due fresh (heap ▸ late) (tops_refocus calm known)
  | false =>
    simp only [Machine.stepLoop, due, Bool.false_eq_true, if_false] at known
    refine .begun due ?_
    cases exit with
    | success | failure => exact tops_refocus calm known

/-- Whoever has polled is not where it was. -/
theorem Polled.places_ne (polled : Polled world world' id exit stack) (owned : world'.scene.Owned) :
    world'.places id ≠ {.active (.node (.ofExit exit)) stack} := by
  intro same
  cases polled with
  | interrupted due fresh late tops =>
    exact Place.push_ne (Multiset.singleton_inj.mp ((tops.places owned).symm.trans same))
  | begun undue tops =>
    have place := Multiset.singleton_inj.mp (same.symm.trans (tops.places owned))
    cases exit <;> cases place

theorem Step.polled (step : world.Step world') (tops : world.Tops id (.node (.ofExit exit)) stack) :
    world'.Tops id (.node (.ofExit exit)) stack ∨ Polled world world' id exit stack :=
  (step.tops tops).imp_right fun ⟨_, calm, heap, known⟩ => polled_of_acted calm heap known

theorem Polls.polled {index : Nat} (polls : world.Polls choice (.ofIndex index))
    (owned : world.scene.Owned)
    (place : world.places (.ofIndex index) = {.active (.node (.ofExit exit)) stack}) :
    Polled world (world.choose choice) (.ofIndex index) exit stack := by
  obtain ⟨number, thread, fiber, current, frames, rfl, present, next, own⟩ := polls
  have tops : world.Tops fiber (.node current) frames :=
    ⟨thread, List.mem_of_getElem? present, next⟩
  obtain ⟨holding, shows'⟩ := tops.shows owned
  obtain ⟨number', small, rfl⟩ := shows'.knows
  cases own
  have same := Multiset.singleton_inj.mp (place.symm.trans (tops.places owned))
  obtain ⟨rfl, rfl⟩ : Node.ofExit exit = current ∧ stack = frames := by simpa using same
  obtain ⟨calm, rest, control⟩ := Thread.next?_eq_some_iff.mp next
  obtain ⟨heap, threads⟩ := threads_onThread present Machine.step
  rw [Machine.step_of_next? _ calm control] at heap threads
  have calm' : { thread with control := rest }.panicking = none := calm
  refine polled_of_acted calm' heap ?_
  rw [choose, threads]
  exact List.mem_set (List.getElem?_eq_some_iff.mp present).1 _

/-! ### The region -/

/-- The fiber has come down to a stack with an outcome. -/
def Arrives (world : World σ) (id : FiberId) (stack : List (Frame σ)) (exit : Exit Erased) : Prop :=
  ∃ place, world.places id = {place} ∧ place.Reaches stack exit

/-- The fiber enters a region in which it may be interrupted. -/
def Opens (run : Nat → World σ) (id : FiberId) (n : Nat) : Prop :=
  ∃ effect frames,
    (run n).places id = {.active (.node (.withStatus effect .interruptible)) frames} ∧
      (run (n + 1)).places id ≠ (run n).places id

/-- The fiber is done with a poll above a stack, with an outcome at hand. -/
def Closes (run : Nat → World σ) (id : FiberId) (stack : List (Frame σ)) (exit : Exit Erased)
    (n : Nat) : Prop :=
  (run n).places id = {.active (.node (.ofExit exit)) stack} ∧
    (run (n + 1)).places id ≠ (run n).places id

/-- A region has not been closed yet, and the fiber has entered no other in which it may be
interrupted. -/
def Unbroken (run : Nat → World σ) (id : FiberId) (stack : List (Frame σ)) (n : Nat) : Prop :=
  ∀ m < n, ¬Opens run id m ∧ ∀ exit, ¬Closes run id stack exit m

theorem Unbroken.mono {m : Nat} (h : Unbroken run id stack n) (le : m ≤ n) :
    Unbroken run id stack m := fun k lt => h k (lt.trans_le le)

open Strand

/-- A fiber is in a region, or it has left it with an outcome and not yet polled. -/
inductive Stage (run : Nat → World σ) (id : FiberId) (saved : InterruptStatus) (late : Bool)
    (stack : List (Frame σ)) (strands : Nat → Strand σ) (n : Nat) : Prop where
  | sheltered (sheltered : (strands n).Sheltered late (statusFrame saved :: stack))
      (inside : ∀ m, 0 ≤ m → m < n → ∀ exit,
        ¬(strands m).place.Reaches (statusFrame saved :: stack) exit)
  | closing {left : Nat} {exit : Exit Erased} {age : Nat} (lt : left < n)
      (leaves : Leaves strands 0 left (statusFrame saved :: stack) exit)
      (closing : (strands n).Closing saved late exit stack age)
      (tops : age = 6 → (run n).Tops id (.node (.ofExit exit)) stack)

/-- What closes a region goes on closing it, up to the poll. -/
theorem Stage.of_closing (h : Run run) {strands : Nat → Strand σ} {left age : Nat}
    (lt : left < n + 1) (leaves : Leaves strands 0 left (statusFrame saved :: stack) exit)
    (here : (run n).scene.Shows id (strands n))
    (next : (run (n + 1)).scene.Shows id (strands (n + 1)))
    (moves : (strands n).Moves (strands (n + 1))) (open' : ¬Closes run id stack exit n)
    (closing : (strands n).Closing saved late exit stack age)
    (tops : age = 6 → (run n).Tops id (.node (.ofExit exit)) stack) :
    Stage run id saved late stack strands (n + 1) := by
  have there : (run n).places id = {(strands n).place} := here.place
  have there' : (run (n + 1)).places id = {(strands (n + 1)).place} := next.place
  rcases closing.moves moves with ⟨same, still⟩ | older | ⟨rfl, other⟩
  -- Nothing has happened, so a loop that was about to poll still is.
  · refine .closing lt leaves still fun polling => ?_
    have place : (run n).places id = {.active (.node (.ofExit exit)) stack} :=
      (tops polling).places (h.owned n)
    have place' : (run (n + 1)).places id = {.active (.node (.ofExit exit)) stack} := by
      rw [there', same, ← there, place]
    rcases (h.step n).polled (tops polling) with stays | polled
    · exact stays
    · exact absurd place' (polled.places_ne (h.owned (n + 1)))
  -- The last stage before the poll begins with a loop that is innermost, and stays so.
  · refine .closing lt leaves older fun last => ?_
    obtain rfl : age = 5 := Nat.succ_injective last
    generalize after : strands (n + 1) = strand at older there'
    generalize before : strands n = strand' at closing here
    cases closing
    cases older
    have top : (run n).Tops id (.building (.done (.ofExit exit))) stack :=
      tops_of_shows (by simp) here
    rcases (h.step n).tops top with still | ⟨thread, calm, _, known⟩
    · cases Multiset.singleton_inj.mp (there'.symm.trans (still.places (h.owned (n + 1))))
    · exact tops_refocus calm known
  -- The fiber has polled, which is excluded.
  · have place : (strands n).place = .active (.node (.ofExit exit)) stack := by
      generalize strands n = strand at closing
      cases closing
      rfl
    refine absurd ⟨there.trans (by rw [place]), fun same => other ?_⟩ open'
    exact Multiset.singleton_inj.mp (there'.symm.trans (same.trans there))

theorem Follows.stage (h : Run run) {strands : Nat → Strand σ} {last : Nat}
    (follows : Follows run id strands 0 last)
    (begins : (strands 0).Sheltered late (statusFrame saved :: stack)) (le : n ≤ last)
    (unbroken : Unbroken run id stack n) : Stage run id saved late stack strands n := by
  induction n with
  | zero => exact .sheltered begins fun m _ lt => absurd lt (Nat.not_lt_zero m)
  | succ n ih =>
    -- The stage of one moment decides the next one: in the region, leaving it, or closing it.
    have here := follows.seen n (Nat.zero_le n) (Nat.le_of_succ_le le)
    have next := follows.seen (n + 1) (Nat.zero_le _) le
    have moves := follows.stretch n (Nat.zero_le n) le
    obtain ⟨shut, open'⟩ := unbroken n (Nat.lt_succ_self n)
    have stage := ih (Nat.le_of_succ_le le) (unbroken.mono (Nat.le_succ n))
    cases stage with
    | closing lt leaves closing tops =>
      exact .of_closing h (Nat.lt_succ_of_lt lt) leaves here next moves (open' _) closing tops
    | sheltered sheltered inside =>
      by_cases reached : ∃ exit, (strands n).place.Reaches (statusFrame saved :: stack) exit
      · obtain ⟨exit, reaches⟩ := reached
        exact .of_closing h (Nat.lt_succ_self n) ⟨Nat.zero_le n, reaches, inside⟩ here next moves
          (open' exit) (.left reaches sheltered.flagged) nofun
      · have unreached := not_exists.mp reached
        refine .sheltered (sheltered.moves moves ?_ unreached) (forall_lt_succ inside unreached)
        rintro ⟨effect, frames, place, other⟩
        have there : (run n).places id = {(strands n).place} := here.place
        have there' : (run (n + 1)).places id = {(strands (n + 1)).place} := next.place
        refine shut ⟨effect, frames, there.trans (by rw [place]), fun same => other ?_⟩
        exact Multiset.singleton_inj.mp (there'.symm.trans (same.trans there))

/-! ### What the poll behind a region finds -/

/-- A fiber that a step asks for its interruption has been asked. -/
theorem requested_of_asks {heap : Heap σ} {thread : Thread σ} (asks : thread.Asks id)
    (known : (heap.fiber? id).isSome) : (Machine.step heap thread).1.isRequested id = true := by
  obtain ⟨activation, α, keep, fiber, next, top, holds, own⟩ := asks
  obtain ⟨calm, rest, control⟩ := Thread.next?_eq_some_iff.mp top
  rw [Machine.step_of_next? _ calm control, Machine.advance_of_holds holds rfl, Machine.perform]
  have same := heap.fiber?_congr own
  obtain ⟨state, present⟩ := Option.isSome_iff_exists.mp known
  simp only [Machine.requestInterrupt, same, present]
  rw [Heap.fiber?] at present
  have asked : (heap.updateFlags fiber InterruptFlags.request).isRequested id = true := by
    rw [Heap.isRequested, Heap.fiber?, Heap.updateFlags, Heap.fibers_updateFiber, if_pos own,
      present]
    rfl
  split
  · exact asked
  · rw [Heap.isRequested, Heap.fiber?, (Heap.tables_report _ _ _ _).1]
    exact asked

/-- A fiber that is still there has been asked exactly if it was at the start, or by some step. -/
theorem Follows.isRequested_iff (h : Run run) {strands : Nat → Strand σ}
    (follows : Follows run id strands 0 n) :
    (run n).heap.isRequested id = true ↔
      (run 0).heap.isRequested id = true ∨ ∃ m < n, AskedAt run id m := by
  have later {m : Nat} (le : m ≤ n) (asked : (run m).heap.isRequested id = true) :
      (run n).heap.isRequested id = true := by
    have then' := (follows.seen m (Nat.zero_le m) le).isRequested.symm.trans asked
    have now := (follows.stretch.mono (Nat.zero_le m) le_rfl).requested le then'
    exact (follows.seen n (Nat.zero_le n) le_rfl).isRequested.trans now
  constructor
  · exact h.asked_of_isRequested
  · rintro (asked | ⟨m, lt, thread, _, asks, heap⟩)
    · exact later (Nat.zero_le n) asked
    · obtain ⟨fiber, present, _⟩ := (follows.seen m (Nat.zero_le m) lt.le).holding
      refine later lt ?_
      rw [heap]
      exact requested_of_asks asks (Option.isSome_iff_exists.mpr ⟨fiber, present⟩)

/-- What a run of an uninterruptible region has to do with its replay, in which the fiber is asked
for its interruption at other times. -/
structure Shelter (run other : Nat → World σ) (id : FiberId) (stack : List (Frame σ))
    (saved : InterruptStatus) (late : Bool) : Prop where
  /-- Both are alike until the fiber has polled behind the region. -/
  same : ∀ n, Unbroken run id stack n → Alike id (run n) (other n)
  /-- Nothing under the region sees an outcome before. -/
  inside : ∀ n exit, Unbroken run id stack n → ¬(run n).Arrives id stack exit
  /-- At the poll it has the outcome at hand with which it left the region. -/
  outcome : ∀ n exit, Unbroken run id stack n → Closes run id stack exit n →
    ∃ left < n, (run left).Arrives id (statusFrame saved :: stack) exit ∧
      ∀ m < left, ∀ exit, ¬(run m).Arrives id (statusFrame saved :: stack) exit
  /-- If it may be interrupted again and was asked, the outcome is dropped, and the interruption
  takes effect and goes to the innermost handler around the region. -/
  dropped : ∀ n exit, Unbroken run id stack n → Closes run id stack exit n →
    saved = .interruptible → late = false →
    ((run 0).heap.isRequested id = true ∨ ∃ m < n, AskedAt run id m) →
    TakesEffect run id n ∧ Unwinds run id n (.ofExit exit) stack
  /-- Otherwise the outcome goes to the frames around the region. -/
  kept : ∀ n exit, Unbroken run id stack n → Closes run id stack exit n →
    ¬(saved = .interruptible ∧ late = false ∧
      ((run 0).heap.isRequested id = true ∨ ∃ m < n, AskedAt run id m)) →
    (run (n + 1)).places id = {.active (.ofExit exit) stack}
  /-- Behind a region in another one, both are alike as long as the outer one lasts. -/
  nested : ∀ n exit, Unbroken run id stack n → Closes run id stack exit n →
    saved = .uninterruptible → ∀ last,
    (∀ m current frames, n < m → m < last → (run m).places id = {.active (.node current) frames} →
      (run m).Immune id) →
    Alike id (run last) (other last)
  /-- If an interruption has taken effect before, both are alike for ever. -/
  spent : late = true → ∀ n, Alike id (run n) (other n)

section Region

variable (h : Run run) {strand : Strand σ} (shows' : (run 0).scene.Shows id strand)
  (begins : strand.Sheltered late (statusFrame saved :: stack))

include h shows' begins

/-- As long as the fiber is there, it can be followed. -/
theorem Run.exists_stage (there : (run n).places id ≠ 0) (unbroken : Unbroken run id stack n) :
    ∃ strands, Follows run id strands 0 n ∧ Stage run id saved late stack strands n := by
  obtain ⟨strands, same, follows⟩ := h.exists_follows shows' (Nat.zero_le n) there
  exact ⟨strands, follows, follows.stage h (same ▸ begins) le_rfl unbroken⟩

/-- In the region a fiber is immune where it polls. -/
theorem Run.immune_of_polls (polls : (run n).Polls choice id)
    (made : run (n + 1) = (run n).choose choice)
    (unbroken : Unbroken run id stack n) (open' : ∀ exit, ¬Closes run id stack exit n) :
    (run n).Immune id := by
  obtain ⟨index, _, rfl⟩ := shows'.knows
  obtain ⟨current, frames, tops⟩ := polls.tops (h.owned n)
  have place := tops.places (h.owned n)
  obtain ⟨strands, follows, stage⟩ :=
    h.exists_stage shows' begins (place ▸ Multiset.singleton_ne_zero _) unbroken
  have here := follows.seen n (Nat.zero_le n) le_rfl
  have immune (shut : Flagged .uninterruptible late (strands n).holding) :
      (run n).Immune (.ofIndex index) := .inl (here.status.trans shut.1)
  cases stage with
  | sheltered sheltered => exact immune sheltered.flagged
  | @closing left exit age lt leaves closing top =>
    rcases closing.shut_of_node (follows.place_eq (Nat.zero_le n) le_rfl place) with rfl | shut
    · -- The fiber is at the poll behind the region, and it does poll.
      have polling : (run n).places (.ofIndex index) = {.active (.node (.ofExit exit)) stack} :=
        (top rfl).places (h.owned n)
      have polled := polls.polled (h.owned n) polling
      rw [← made] at polled
      refine absurd ⟨polling, ?_⟩ (open' exit)
      rw [polling]
      exact polled.places_ne (h.owned (n + 1))
    · exact immune shut

/-- The poll behind a region, and the outcome with which the fiber left the region. -/
theorem Run.exists_left (unbroken : Unbroken run id stack n)
    (polling : (run n).places id = {.active (.node (.ofExit exit)) stack}) :
    ∃ strands, Follows run id strands 0 n ∧ Flagged saved late (strands n).holding ∧
      (run n).Tops id (.node (.ofExit exit)) stack ∧
      ∃ left < n, Leaves strands 0 left (statusFrame saved :: stack) exit := by
  obtain ⟨strands, follows, stage⟩ :=
    h.exists_stage shows' begins (polling ▸ Multiset.singleton_ne_zero _) unbroken
  have place := follows.place_eq (Nat.zero_le n) le_rfl polling
  cases stage with
  | sheltered sheltered =>
    have long := sheltered.above.length_le
    rw [place] at long
    simp only [Place.stack, List.length_cons] at long
    omega
  | closing lt leaves closing tops =>
    obtain ⟨rfl, rfl, back⟩ := closing.of_polling place
    exact ⟨strands, follows, back, tops rfl, _, lt, leaves⟩

theorem Run.not_arrives (unbroken : Unbroken run id stack n) : ¬(run n).Arrives id stack exit := by
  rintro ⟨place, there, reaches⟩
  obtain ⟨strands, follows, stage⟩ :=
    h.exists_stage shows' begins (there ▸ Multiset.singleton_ne_zero _) unbroken
  rw [← follows.place_eq (Nat.zero_le n) le_rfl there] at reaches
  cases stage with
  | sheltered sheltered => exact reaches.not_above_fold sheltered.above
  | closing lt leaves closing tops => exact closing.not_reaches _ reaches

end Region

/-- A run that begins in an uninterruptible region, with any other requests. -/
theorem Run.shelter (h : Run run) (made : ∀ n, run (n + 1) = (run n).choose (choices n))
    {strand : Strand σ} (shows' : (run 0).scene.Shows id strand)
    (begins : strand.Sheltered late (statusFrame saved :: stack)) (asked : Nat → Bool) :
    Shelter run (replay id choices asked (run 0)) id stack saved late := by
  have immune {n m : Nat} (unbroken : Unbroken run id stack n) (lt : m < n)
      (polls : (run m).Polls (choices m) id) : (run m).Immune id :=
    h.immune_of_polls shows' begins polls (made m) (unbroken.mono lt.le) (unbroken m lt).2
  obtain ⟨index, _, rfl⟩ := shows'.knows
  constructor
  case same => exact fun n unbroken => alike_of_immune made fun m lt => immune unbroken lt
  case inside => exact fun n exit unbroken => h.not_arrives shows' begins unbroken
  case outcome =>
    rintro n exit unbroken ⟨polling, -⟩
    obtain ⟨strands, follows, -, -, left, lt, leaves⟩ :=
      h.exists_left shows' begins unbroken polling
    refine ⟨left, lt, ⟨_, (follows.seen left (Nat.zero_le _) lt.le).place, leaves.reaches⟩, ?_⟩
    rintro m lt' exit' ⟨place, there, reaches⟩
    rw [← follows.place_eq (Nat.zero_le m) (lt'.trans lt).le there] at reaches
    exact leaves.inside m (Nat.zero_le m) lt' exit' reaches
  case dropped =>
    rintro n exit unbroken ⟨polling, gone⟩ rfl rfl requested
    obtain ⟨strands, follows, back, tops, -⟩ := h.exists_left shows' begins unbroken polling
    have here := follows.seen n (Nat.zero_le n) le_rfl
    have requested := (follows.isRequested_iff h).mpr requested
    have due : (run n).heap.shouldInterrupt (.ofIndex index) = true :=
      here.shouldInterrupt.trans (InterruptFlags.shouldInterrupt_iff.mpr
        ⟨here.isRequested.symm.trans requested, back⟩)
    rcases (h.step n).polled tops with still | ⟨_, fresh, late, _⟩ | ⟨undue, _⟩
    · exact absurd ((still.places (h.owned (n + 1))).trans polling.symm) gone
    · have effect : TakesEffect run (.ofIndex index) n := ⟨fresh, late⟩
      obtain ⟨current, frames, place, unwinds⟩ := h.unwinds_of_takesEffect effect
      cases Multiset.singleton_inj.mp (place.symm.trans polling)
      exact ⟨effect, unwinds⟩
    · cases due.symm.trans undue
  case kept =>
    rintro n exit unbroken ⟨polling, gone⟩ otherwise
    obtain ⟨strands, follows, back, tops, -⟩ := h.exists_left shows' begins unbroken polling
    have here := follows.seen n (Nat.zero_le n) le_rfl
    rcases (h.step n).polled tops with still | ⟨due, _, _, _⟩ | ⟨_, tops⟩
    · exact absurd ((still.places (h.owned (n + 1))).trans polling.symm) gone
    · obtain ⟨requested, open', fresh, _⟩ := Heap.shouldInterrupt_iff.mp due
      refine absurd ⟨?_, ?_, (follows.isRequested_iff h).mp requested⟩ otherwise
      · exact back.1.symm.trans (here.status.symm.trans open')
      · exact back.2.symm.trans (here.isFinalizing.symm.trans fresh)
    · exact tops.places (h.owned (n + 1))
  case nested =>
    rintro n exit unbroken ⟨polling, -⟩ rfl last deaf
    refine alike_of_immune made fun m lt polls => ?_
    -- Up to the poll the region shelters, at the poll the saved status, and then the outer region.
    rcases Nat.lt_trichotomy m n with before | rfl | after
    · exact immune unbroken before polls
    · obtain ⟨strands, follows, back, -⟩ := h.exists_left shows' begins unbroken polling
      exact .inl ((follows.seen m (Nat.zero_le m) le_rfl).status.trans back.1)
    · obtain ⟨current, frames, tops⟩ := polls.tops (h.owned m)
      exact deaf m current frames after lt (tops.places (h.owned m))
  case spent =>
    rintro rfl n
    refine alike_of_immune made fun m _ polls => .inr ?_
    obtain ⟨current, frames, tops⟩ := polls.tops (h.owned m)
    have there := tops.places (h.owned m) ▸ Multiset.singleton_ne_zero _
    obtain ⟨strands, same, follows⟩ := h.exists_follows shows' (Nat.zero_le m) there
    have late := follows.stretch.finalizing (Nat.zero_le m) (same ▸ begins.flagged.2)
    exact (follows.seen m (Nat.zero_le m) le_rfl).isFinalizing.trans late

/-- A fiber enters an uninterruptible region. From there on the run and its replay, in which the
fiber is asked for its interruption whenever one likes, are alike until the fiber polls behind the
region. -/
theorem region_sheltered (h : Run run) (made : ∀ n, run (n + 1) = (run n).choose (choices n))
    {effect : Node σ} (authored : effect.Authored) {holding : Holding} {calling : Bool}
    (entry : (run 0).scene.Shows id
      ⟨.active (.node (.withStatus effect .uninterruptible)) stack, holding, calling⟩)
    (entered : (run 1).places id =
      {.active (.node effect) (statusFrame holding.flags.status :: stack)})
    (asked : Nat → Bool) :
    Shelter (fun n => run (n + 1)) (replay id (fun n => choices (n + 1)) asked (run 1)) id stack
      holding.flags.status holding.flags.finalizing := by
  have later : Run fun n => run (n + 1) := ⟨h.reachable 1, fun n => h.step (n + 1)⟩
  have there : (run 1).places id ≠ 0 := entered ▸ Multiset.singleton_ne_zero _
  obtain ⟨strands, begins, follows⟩ := h.exists_follows entry (Nat.zero_le 1) there
  have place := follows.place_eq (Nat.zero_le 1) le_rfl entered
  have moves := follows.stretch 0 le_rfl Nat.one_pos
  rw [begins] at moves
  refine later.shelter (fun n => made (n + 1)) (follows.seen 1 (Nat.zero_le 1) le_rfl) ?_ asked
  rcases moves.waits_or_steps with ⟨waiting, same, _⟩ | ⟨own, input, request, step⟩
  · rw [same] at place
    exact absurd place.symm Place.push_ne
  · rcases step.of_polling with ⟨_, same⟩ | ⟨_, meaning⟩
    · rw [same] at place
      cases place
    · generalize strands 1 = strand at meaning
      cases meaning
      have flags : Flagged holding.flags.status holding.flags.finalizing own :=
        Flagged.asked ⟨rfl, rfl⟩ request
      rw [flags.1]
      exact .working (.node authored) authored.opens (List.forall_mem_nil _) ⟨rfl, flags.2⟩

theorem unbroken_of_places (busy : ∀ m < n, ∃ place, (run m).places id = {place} ∧
    (∀ effect frames, place ≠ .active (.node (.withStatus effect .interruptible)) frames) ∧
    ∀ exit, place ≠ .active (.node (.ofExit exit)) stack) : Unbroken run id stack n := by
  intro m lt
  obtain ⟨place, there, shut, open'⟩ := busy m lt
  constructor
  · rintro ⟨effect, frames, place', _⟩
    exact shut effect frames (Multiset.singleton_inj.mp (there.symm.trans place'))
  · rintro exit ⟨place', _⟩
    exact open' exit (Multiset.singleton_inj.mp (there.symm.trans place'))

/-- An effect asks for the interruption of its own fiber in an uninterruptible region. Up to the
poll behind the region this is the run in which nobody asks; then the interruption takes effect. -/
theorem region_sheltered_trial :
    let run := fun n => trial () (launched interruptSelf.uninterruptible) (n + 2)
    ∃ choices : Nat → Choice Unit, (∀ n, run (n + 1) = (run n).choose (choices n)) ∧
      Alike ⟨1⟩ (run 9) (replay ⟨1⟩ choices (fun _ => false) (run 0) 9) ∧
      (run 9).heap.isRequested ⟨1⟩ = true ∧ TakesEffect run ⟨1⟩ 9 := by
  intro run
  have whole := run_trial () (launched interruptSelf.uninterruptible)
  have entering : Run fun n => trial () (launched interruptSelf.uninterruptible) (n + 1) :=
    ⟨whole.reachable 1, fun n => whole.step (n + 1)⟩
  obtain ⟨choices, made⟩ := exists_choices entering
  have entry : (trial () (launched interruptSelf.uninterruptible) 1).scene.Shows ⟨1⟩
      ⟨.active (.node (.withStatus interruptSelf.node .uninterruptible)) [], ⟨{}, [], ⟨0⟩⟩,
        false⟩ :=
    shows_trial rfl rfl rfl rfl
  have shelter := region_sheltered entering made (Effect.authored_interrupt _) entry rfl
    fun _ => false
  have unbroken : Unbroken run ⟨1⟩ [] 9 := by
    refine unbroken_of_places fun m lt => ?_
    interval_cases m <;>
      exact ⟨_, rfl, fun effect frames => nofun, fun exit => by cases exit <;> exact nofun⟩
  have polling : (run 9).places ⟨1⟩ = {.active (.node (.ofExit (.success .unit))) []} := rfl
  have closes : Closes run ⟨1⟩ [] (.success .unit) 9 := by
    refine ⟨polling, ?_⟩
    have after : (run 10).places ⟨1⟩ = {.active (.node (.failNow .interrupt))
      [.apply (.constant (.ofExit (.success .unit)))]} := rfl
    rw [polling, after]
    exact fun same => nomatch Multiset.singleton_inj.mp same
  have asked : AskedAt run ⟨1⟩ 1 := by
    refine ⟨(run 1).main, List.mem_cons_self, ?_, rfl⟩
    exact ⟨_, _, _, ⟨1⟩, _, rfl, .thunk _ _ _, rfl⟩
  refine ⟨fun n => choices (n + 1), fun n => made (n + 1), shelter.same 9 unbroken, rfl, ?_⟩
  exact (shelter.dropped 9 _ unbroken closes rfl rfl (.inr ⟨1, by decide, asked⟩)).1

end World

end Fibers
