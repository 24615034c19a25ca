import Fibers.Proofs.Strand.Meaning
import Fibers.Proofs.World.Await
import Fibers.Proofs.World.Evaluation

/-!
# Callbacks that receive known values

Whoever completes the callback of a registration supplies the value that is given for it
(`World.Supplies`). Then a fiber that runs a pure effect comes to what the effect means, whoever
else runs beside it.

## Main results

`World.Working.means`: a fiber that works on a pure effect comes down with what the effect means.
`World.CompletesAt.resumes`: whoever completes a callback resumes the fiber that waits for it.

## Proof strategy

A callback that has been handed out has a suspension, and what this keeps until the fiber asks for
it is what somebody has supplied (`World.Handed.kept`).
-/

namespace Fibers

variable {σ : Type} {given : Given σ}

/-- The user code of an activation goes on, or one observer has been notified. -/
inductive Activation.Continues : Activation σ → Activation σ → Prop where
  | still {activation left : Activation σ}
      (same : ∀ id, left.places id = activation.places id) : Continues activation left
  | loop (id : FiberId) (focus focus' : Focus σ) (stack : List (Frame σ)) :
      Continues (.loop id focus stack) (.loop id focus' stack)

theorem Activation.Continues.card_eq {activation left : Activation σ}
    (continues : activation.Continues left) (id : FiberId) :
    (left.places id).card = (activation.places id).card := by
  cases continues with
  | still same => rw [same]
  | loop owner =>
    simp only [Activation.places]
    split <;> rfl

/-- The step of an activation that completes a callback does nothing else. -/
theorem Activation.exists_advance_of_completes {activation : Activation σ} {callback : CallbackId}
    {value : Erased} (completes : activation.completes? = some (callback, value)) (heap : Heap σ)
    (thread : Thread σ) :
    ∃ left : Activation σ, activation.Continues left ∧
      Machine.advance heap thread activation =
        Machine.completeCallback heap (thread.push left) callback value := by
  have code {α : Type} {keep : Code σ α → Activation σ} {code : Code σ α}
      (holds : activation.Holds keep code) (own : code.completes? = some (callback, value)) :
      ∃ left : Activation σ, activation.Continues left ∧
        Machine.advance heap thread activation =
          Machine.completeCallback heap (thread.push left) callback value := by
    cases code with
    | complete other found next =>
      cases own
      refine ⟨keep (next ⟨⟩), ?_, Machine.advance_of_holds holds rfl heap thread⟩
      cases holds with
      | program | callback => exact .still fun _ => rfl
      | thunk owner | raising owner | building owner | registering owner => exact .loop _ _ _ _
    | _ => cases own
  cases activation with
  | program own => exact code (.program own) completes
  | callback own => exact code (.callback own) completes
  | loop id focus stack =>
    cases focus with
    | thunk own => exact code (.thunk id own stack) completes
    | raising own => exact code (.raising id own stack) completes
    | building own => exact code (.building id own stack) completes
    | registering other own => exact code (.registering id other own stack) completes
    | node | value | cause => cases completes
  | notifying exit observers =>
    cases observers with
    | nil => cases completes
    | cons observer rest =>
      cases observer with
      | resume type own =>
        cases completes
        exact ⟨.notifying exit rest, .still fun _ => rfl, rfl⟩
      | call | answer => cases completes
  | posting | opening | draining => cases completes

namespace World

open Strand

variable {run : Nat → World σ} {id : FiberId} {first last n i : Nat} {stack : List (Frame σ)}
  {strands : Nat → Strand σ} {callback : CallbackId} {value : Erased} {thread : Thread σ}

/-! ### Resumption -/

/-- A fiber that waits for a callback goes on with the value that somebody supplies, unless its
executor drops the task. -/
theorem CompletesAt.resumes (completes : CompletesAt run i n callback value) (h : Run run)
    (parked : (run n).heap.suspension? callback = some ⟨id, .parked stack⟩) :
    (run (n + 1)).places id = {.active (.node (.succeed value)) stack} ∨
      (run (n + 1)).places id = 0 := by
  obtain ⟨thread, activation, steps, next, completes⟩ := completes
  obtain ⟨calm, below, control⟩ := Thread.next?_eq_some_iff.mp next
  obtain ⟨left, continues, advanced⟩ :=
    Activation.exists_advance_of_completes completes (run n).heap
    { thread with control := below }
  have step := (Machine.step_of_next? (run n).heap calm control).trans advanced
  obtain ⟨alone, places⟩ := steps.held_of_parked h parked
  have alone' : (Machine.held (run n).heap
      (({ thread with control := below } : Thread σ).push left) id).card ≤ 1 := by
    simp only [Machine.held, Thread.places_push, Thread.places_of_control control,
      Multiset.card_add] at alone ⊢
    rw [continues.card_eq id]
    exact alone
  rw [places, step]
  exact (Machine.resumes_completeCallback parked alone' value).2

/-! ### What is kept for a registration -/

/-- A fiber is handed a new callback for a registration. -/
def Handed (run : Nat → World σ) (callback : CallbackId) (register : CallbackId → Code σ Unit) :
    Prop :=
  ∃ n i thread id stack, StepsAt run n i thread ∧
    thread.next? = some (.loop id (.node (.async register)) stack) ∧
    (run n).heap.shouldInterrupt id = false ∧ callback = (run n).heap.nextCallback

/-- Whoever completes a callback supplies the value that is given for its registration. -/
def Supplies (run : Nat → World σ) (given : Given σ) : Prop :=
  ∀ callback register value, Handed run callback register → given register = some value →
    ∀ i n value', CompletesAt run i n callback value' → value' = value

/-- What is kept for a registration is the value that is given for it. -/
theorem Handed.kept {register : CallbackId → Code σ Unit} (handed : Handed run callback register)
    (h : Run run) (tame : Tame run) (supplies : Supplies run given)
    (known : given register = some value) {found : Erased} {owner : FiberId}
    (present : (run n).heap.suspension? callback = some ⟨owner, .completed found⟩) :
    found = value := by
  obtain ⟨born, j, thread, id, stack, steps, next, undue, rfl⟩ := handed
  have handed : Handed run (run born).heap.nextCallback register :=
    ⟨born, j, thread, id, stack, steps, next, undue, rfl⟩
  obtain ⟨calm, rest, control⟩ := Thread.next?_eq_some_iff.mp next
  have made : (run (born + 1)).heap.suspension? (run born).heap.nextCallback =
      some ⟨id, .registering⟩ := by
    rw [steps.suspension?_eq, Thread.suspensionsAfter, control, calm]
    simp only [Activation.suspensionsAfter, undue]
    exact Array.getElem?_push_size
  -- Before it is handed out, the callback is nobody's.
  have later : born + 1 ≤ n := by
    by_contra early
    obtain ⟨state, there⟩ := h.exists_suspension tame present (show n ≤ born by omega)
    exact absurd (Array.getElem?_eq_some_iff.mp there).1 (Nat.lt_irrefl _)
  suffices ∀ m, born + 1 ≤ m → ∃ state,
      (run m).heap.suspension? (run born).heap.nextCallback = some ⟨id, state⟩ ∧
        ∀ found, state = .completed found → found = value by
    obtain ⟨state, there, good⟩ := this n later
    cases present.symm.trans there
    exact good found rfl
  intro m low
  induction m, low using Nat.le_induction with
  | base => exact ⟨.registering, made, fun found same => by cases same⟩
  | succ m _ ih =>
    obtain ⟨state, there, good⟩ := ih
    obtain ⟨state', after, rfl | ⟨k, turns⟩⟩ := h.turns tame there
    · exact ⟨_, after, good⟩
    · refine ⟨state', after, fun found same => ?_⟩
      cases turns with
      | still => exact good found same
      | completed completes =>
        rcases Rendezvous.complete_eq_completed same with old | ⟨_, rfl⟩
        · exact good found old
        · exact supplies _ register value handed known k m _ completes
      | ended _ _ _ parks =>
        rcases parks with rfl | rfl
        · cases state <;> cases same
        · cases same

/-! ### Steps of a fiber that gets what is given -/

/-- A fiber that is handed a callback gets it in a step of its thread. -/
theorem handed_of_places (h : Run run) (tame : Tame run) {register : CallbackId → Code σ Unit}
    {code : Code σ Unit} (undue : (run n).heap.shouldInterrupt id = false)
    (before : (run n).places id = {.active (.node (.async register)) stack})
    (after : (run (n + 1)).places id = {.active (.registering callback code) stack}) :
    Handed run callback register := by
  obtain ⟨i, thread, steps, next⟩ := h.steps_of_changes tame before after nofun nofun
  have place := steps.places_of_async h next undue
  cases Multiset.singleton_inj.mp (after.symm.trans place)
  exact ⟨n, i, thread, id, stack, steps, next, undue, rfl⟩

/-- At the end of its registration a fiber goes on with the value that is kept for it, or waits. -/
theorem StepsAt.places_of_registered (steps : StepsAt run n i thread) (h : Run run)
    (next : thread.next? = some (.loop id (.registering callback (.done ())) stack)) :
    (∃ value, (run n).heap.suspension? callback = some ⟨id, .completed value⟩ ∧
        (run (n + 1)).places id = {.active (.value value) stack}) ∨
      (run (n + 1)).places id = {.suspended callback stack} := by
  obtain ⟨calm, rest, control⟩ := Thread.next?_eq_some_iff.mp next
  have known := List.mem_of_getElem? steps.before
  obtain ⟨⟨owner, state⟩, present, rfl, meeting⟩ :=
    (h.owned n).meeting _ ⟨thread, known, control ▸ List.mem_cons_self⟩
  have present : (run n).heap.suspension? callback = some ⟨owner, state⟩ := present
  obtain ⟨parked, completed⟩ := steps.parks h next present
  cases state with
  | completed found => exact .inl ⟨found, present, completed found rfl⟩
  | registering => exact .inr (places_of_parked (h.owned (n + 1)) parked)
  | parked | resumed | abandoned => cases meeting

/-- A fiber that goes on with a value at the end of its registration finds it there. -/
theorem completed_of_places (h : Run run) (tame : Tame run)
    (before : (run n).places id = {.active (.registering callback (.done ())) stack})
    (after : (run (n + 1)).places id = {.active (.value value) stack}) :
    (run n).heap.suspension? callback = some ⟨id, .completed value⟩ := by
  obtain ⟨i, thread, steps, next⟩ := h.steps_of_changes tame before after nofun nofun
  rcases steps.places_of_registered h next with ⟨found, present, place⟩ | place
  · cases Multiset.singleton_inj.mp (after.symm.trans place)
    exact present
  · cases Multiset.singleton_inj.mp (after.symm.trans place)

/-- A fiber that waits goes on with a value that somebody supplies. -/
theorem exists_completes_of_places (h : Run run) (tame : Tame run)
    (before : (run n).places id = {.suspended callback stack})
    (after : (run (n + 1)).places id = {.active (.node (.succeed value)) stack}) :
    ∃ i, CompletesAt run i n callback value := by
  have parked := suspension?_of_places before
  have still {state : Rendezvous σ} (kept : state = .parked stack)
      (there : (run (n + 1)).heap.suspension? callback = some ⟨id, state⟩) : False := by
    have place := places_of_parked (h.owned (n + 1)) (kept ▸ there)
    cases Multiset.singleton_inj.mp (after.symm.trans place)
  obtain ⟨state', there, same | ⟨i, turns⟩⟩ := h.turns tame parked
  · exact (still same there).elim
  · cases turns with
    | still => exact (still rfl there).elim
    | @completed found completes =>
      rcases completes.resumes h parked with resumed | gone
      · cases Multiset.singleton_inj.mp (after.symm.trans resumed)
        exact ⟨i, completes⟩
      · exact absurd (after.symm.trans gone) (Multiset.singleton_ne_zero _)
    | ended meeting => cases meeting

/-- A loop that runs user code goes on with other code after a request. -/
theorem StepsAt.places_of_request (steps : StepsAt run n i thread) (h : Run run) {focus : Focus σ}
    (next : thread.next? = some (.loop id focus stack)) {α : Type} {keep : Code σ α → Focus σ}
    {code : Code σ α}
    (holds : Activation.Holds (.loop id focus stack) (fun rest => .loop id (keep rest) stack) code)
    (going : code.isOver = false) :
    ∃ rest, (run (n + 1)).places id = {.active (keep rest) stack} := by
  obtain ⟨calm, below, control⟩ := Thread.next?_eq_some_iff.mp next
  obtain ⟨_, rest, grows⟩ := Machine.grows_perform (run n).heap { thread with control := below }
    (fun rest => .loop id (keep rest) stack) code
  obtain ⟨begun, _, control'⟩ := grows.control
  have mem : Activation.loop id (keep rest) stack ∈
      (Machine.step (run n).heap thread).2.control := by
    rw [Machine.step_of_next? _ calm control, Machine.advance_of_holds holds going, control']
    exact List.mem_append_right _ List.mem_cons_self
  exact ⟨rest, places_of_loop (h.owned (n + 1)) (List.mem_of_getElem? steps.after) mem⟩

/-- Where nobody refuses anything, what looks like a refused request is a panic of the code, or what
the code has ended with. -/
theorem step_of_caught (h : Run run) (tame : Tame run) {focus next : Focus σ} {payload : Payload}
    {holding : Holding} {calling : Bool} (caught : focus.caught payload = some next)
    (before : (run n).places id = {.active focus stack})
    (after : (run (n + 1)).places id = {.active next stack}) :
    Strand.Step ⟨.active focus stack, holding, calling⟩ none
      ⟨.active next stack, holding, false⟩ := by
  have busy : ∀ current, focus ≠ .node current := by
    rintro current rfl
    cases caught
  have moved : focus ≠ next := by
    rintro rfl
    cases focus <;> cases caught
  have changed : (run (n + 1)).places id ≠ ({.active focus stack} : Multiset (Place σ)) := by
    rw [after]
    intro same
    cases Multiset.singleton_inj.mp same
    exact moved rfl
  -- The loop takes a step on a thread that does not panic.
  obtain ⟨i, thread, steps, next?⟩ : ∃ i thread, StepsAt run n i thread ∧
      thread.next? = some (.loop id focus stack) := by
    by_contra none
    refine changed (h.places_of_still tame before busy fun i thread steps own => ?_)
    exact none ⟨i, thread, steps, own⟩
  obtain ⟨calm, below, control⟩ := Thread.next?_eq_some_iff.mp next?
  have comes (focus' : Focus σ) (mem : .loop id focus' stack ∈
      (Machine.step (run n).heap thread).2.control) : next = focus' := by
    have place := places_of_loop (h.owned (n + 1)) (List.mem_of_getElem? steps.after) mem
    cases Multiset.singleton_inj.mp (after.symm.trans place)
    rfl
  -- The code is over, since after a request it would go on as code of the same kind.
  have finished {α : Type} (keep : Code σ α → Focus σ) {code : Code σ α}
      (holds : Activation.Holds (.loop id focus stack) (fun rest => .loop id (keep rest) stack)
        code) (apart : ∀ rest, next ≠ keep rest) : code.isOver = true := by
    by_contra going
    obtain ⟨rest, place⟩ :=
      steps.places_of_request h next? holds (Bool.eq_false_iff.mpr going)
    cases Multiset.singleton_inj.mp (after.symm.trans place)
    exact apart rest rfl
  have step := Machine.step_of_next? (run n).heap calm control
  cases focus with
  | thunk code =>
    cases caught
    obtain ⟨value, rfl⟩ | ⟨payload', rfl⟩ :=
      Action.eq_of_isOver (finished .thunk (.thunk id code stack) fun _ => nofun)
    · cases comes (.value value) (step ▸ List.mem_cons_self)
    · have same := comes (.cause (.ofPayload payload')) (step ▸ List.mem_cons_self)
      exact .panicked (.thunk payload') (congrArg some same.symm)
  | raising code =>
    cases caught
    obtain ⟨cause, rfl⟩ | ⟨payload', rfl⟩ :=
      Action.eq_of_isOver (finished .raising (.raising id code stack) fun _ => nofun)
    · rw [comes (.cause cause) (step ▸ List.mem_cons_self)]
      exact .ended (.raising cause)
    · have same := comes (.cause (.ofPayload payload')) (step ▸ List.mem_cons_self)
      exact .panicked (.raising payload') (congrArg some same.symm)
  | building code =>
    cases caught
    obtain ⟨built, rfl⟩ | ⟨payload', rfl⟩ :=
      Action.eq_of_isOver (finished .building (.building id code stack) fun _ => nofun)
    · rw [comes (.node built) (step ▸ List.mem_cons_self)]
      exact .ended (.building built)
    · have same := comes (.node (.failNow (.ofPayload payload'))) (step ▸ List.mem_cons_self)
      exact .panicked (.building payload') (congrArg some same.symm)
  | registering callback code =>
    cases caught
    have isOver := finished (.registering callback) (.registering id callback code stack) fun _ =>
      nofun
    obtain ⟨_, rfl⟩ | ⟨payload', rfl⟩ := Action.eq_of_isOver isOver
    · -- At the end of a registration there is a value, or the fiber waits.
      rcases steps.places_of_registered h next? with ⟨found, _, place⟩ | place
      · cases Multiset.singleton_inj.mp (after.symm.trans place)
      · cases Multiset.singleton_inj.mp (after.symm.trans place)
    · have same := comes (.cause (.ofPayload payload')) (step ▸ List.mem_cons_self)
      exact .panicked (.registering callback payload') (congrArg some same.symm)
  | node | value | cause => cases caught

/-- A step that takes nothing from outside is honest. -/
theorem honest_none (before after : Strand σ) : Honest given (Handed run) before none after :=
  ⟨fun _ => nofun, fun _ _ _ _ => nofun, fun _ _ _ => nofun⟩

/-- Every step of a fiber can be seen as an honest one. -/
theorem exists_honest (h : Run run) (tame : Tame run) (supplies : Supplies run given)
    {before after : Strand σ} {input : Option (Input σ)} (seen : (run n).scene.Shows id before)
    (seen' : (run (n + 1)).scene.Shows id after)
    (undue : before.holding.flags.shouldInterrupt = false) (step : before.Step input after) :
    ∃ input, before.Step input after ∧ Honest given (Handed run) before input after := by
  have place : (run n).places id = {before.place} := seen.place
  have place' : (run (n + 1)).places id = {after.place} := seen'.place
  cases input with
  | none => exact ⟨none, step, honest_none _ _⟩
  | some input =>
    cases step with
    | interpreted _ meaning =>
      cases meaning with
      | async register callback =>
        have handed := handed_of_places h tame (seen.shouldInterrupt.trans undue) place place'
        refine ⟨_, .interpreted undue (.async register callback), fun _ => nofun, ?_, ?_⟩
        · intro other frames own same given
          cases same
          cases given
          exact handed
        · exact fun _ _ _ => nofun
      | fork effect child =>
        exact ⟨_, .interpreted undue (.fork effect child), fun _ => nofun, fun _ _ _ _ => nofun,
          fun _ _ _ => nofun⟩
    | answered answered =>
      exact ⟨_, .answered answered, fun _ => nofun, fun _ _ _ _ => nofun, fun _ _ _ => nofun⟩
    | refused caught => exact ⟨_, step_of_caught h tame caught place place', honest_none _ _⟩
    | @met callback value =>
      -- The value was there before the registration returned, and it has been kept since.
      have present := completed_of_places h tame place place'
      refine ⟨_, .met, fun _ => nofun, fun _ _ _ _ => nofun, ?_⟩
      intro other found meets same register value' handed known
      cases same
      cases meets
      exact handed.kept h tame supplies known present
    | @resumed callback _ value =>
      -- A parked fiber goes on only with what its callback is completed with.
      obtain ⟨i, completes⟩ := exists_completes_of_places h tame place place'
      refine ⟨_, .resumed, fun _ => nofun, fun _ _ _ _ => nofun, ?_⟩
      intro other found meets same register value' handed known
      cases same
      cases meets
      exact supplies _ register value' handed known i n _ completes

/-- A fiber that works on a pure effect comes down with what the effect means. -/
theorem Working.means {effect : Node σ} {holding : Holding}
    {feed : Nat → Option (Option (Input σ))} {exit : Exit Erased}
    (working : Working run id effect stack holding strands feed first last) (tame : Tame run)
    (supplies : Supplies run given) (pure : effect.Pure given)
    (reaches : (strands last).place.Reaches stack exit) :
    Means given holding.environments effect exit := by
  have h := working.origin
  have undue : ∀ n, first ≤ n → n < last →
      (strands n).holding.flags.shouldInterrupt = false := fun n low high => by
    simp [InterruptFlags.shouldInterrupt, working.unrequested n low high.le]
  have seen := working.follows.seen
  -- What the fiber takes from outside may have been seen as a refusal that was none.
  have honest (n : Nat) : ∃ input : Option (Option (Input σ)), first ≤ n → n < last →
      (input = none → strands (n + 1) = strands n) ∧
      ∀ own, input = some own → (strands n).Step own (strands (n + 1)) ∧
        Honest given (Handed run) (strands n) own (strands (n + 1)) := by
    by_cases within : first ≤ n ∧ n < last
    · obtain ⟨low, high⟩ := within
      have now := working.fed n low high
      cases fed : feed n with
      | none =>
        rw [fed] at now
        refine ⟨none, fun _ _ => ⟨fun _ => now, fun own same => ?_⟩⟩
        cases same
      | some input =>
        rw [fed] at now
        obtain ⟨input', step, fits⟩ := exists_honest h tame supplies (seen n low high.le)
          (seen (n + 1) (Nat.le_succ_of_le low) high) (undue n low high) now
        refine ⟨some input', fun _ _ => ⟨fun same => ?_, fun own same => ?_⟩⟩
        · cases same
        · exact Option.some.inj same ▸ ⟨step, fits⟩
    · exact ⟨none, fun low high => absurd ⟨low, high⟩ within⟩
  choose feed' honest using honest
  have fed : Fed strands feed' first last := fun n low high => by
    obtain ⟨rests, takes⟩ := honest n low high
    split
    next none => exact rests none
    next input some => exact (takes input some).1
  obtain ⟨calling, begins⟩ := working.begins
  have path : Path (Honest given (Handed run)) stack (strands first) (taken feed' first last)
      (stepsOf feed' first last) (strands last) :=
    fed.path working.le undue working.inside fun n low high own same =>
      ((honest n low high).2 own same).2
  rw [begins] at path
  exact means_of_path pure path reaches

end World

end Fibers
