import Fibers.Proofs.Machine.TwinStep
import Fibers.Proofs.Strand.Silence

/-!
# Matching that fall out of step

A fiber may take a few silent steps that its twin does not take: it pushes a frame, pops one, or
goes on with a value that it already has. Nobody sees them, and afterwards the two are in step
again.

## Main result

`Machine.near_step`: whatever a thread does, a thread that is near it does the same, after as many
silent steps as it needs to catch up, or it waits while the first one catches up.

## Proof strategy

`Rejoins` says that silent steps lead two places to where their loops do the same. A thread whose
innermost loop has some silent steps to go takes one of them; one that has none left waits for its
twin.
-/

namespace Fibers

variable {σ : Type}

/-- Everybody but one fiber stays where it is. -/
def Matching.Only (twins : Matching σ) (id : FiberId) : Prop :=
  ∀ fiber place place', fiber ≠ id → twins fiber place place' → place' = place

/-- A silent step leads from one place to another, whatever the heap keeps for the fiber. -/
def Place.Silent (place next : Place σ) : Prop :=
  ∃ holding, Strand.Silent ⟨place, holding, false⟩ ⟨next, holding, false⟩

/-- Silent steps lead from one place to another. -/
def Place.Leads : Place σ → Place σ → Prop := Relation.ReflTransGen Place.Silent

namespace Place.Leads

variable {stack : List (Frame σ)} {place : Place σ}

theorem refl (place : Place σ) : place.Leads place := Relation.ReflTransGen.refl

theorem flatMap {effect : Node σ} {continuation : Continuation σ}
    (h : Place.Leads (.active (.node effect) (.apply continuation :: stack)) place) :
    Place.Leads (.active (.node (.flatMap effect continuation)) stack) place :=
  h.head ⟨⟨{}, [], ⟨0⟩⟩, .flatMap effect continuation stack _ false⟩

theorem succeed {value : Erased} (h : Place.Leads (.active (.value value) stack) place) :
    Place.Leads (.active (.node (.succeed value)) stack) place :=
  h.head ⟨⟨{}, [], ⟨0⟩⟩, .succeed value stack _ false⟩

theorem value {value : Erased} {frame : Frame σ}
    (h : Place.Leads (.active (.building (frame.resume value)) stack) place) :
    Place.Leads (.active (.value value) (frame :: stack)) place :=
  h.head ⟨⟨{}, [], ⟨0⟩⟩, .value value frame stack _ false⟩

theorem built {next : Node σ} (h : Place.Leads (.active (.node next) stack) place) :
    Place.Leads (.active (.building (.done next)) stack) place :=
  h.head ⟨⟨{}, [], ⟨0⟩⟩, .built next stack _⟩

theorem failNow {cause : Cause} (h : Place.Leads (.active (.cause cause) stack) place) :
    Place.Leads (.active (.node (.failNow cause)) stack) place :=
  (h.head ⟨⟨{}, [], ⟨0⟩⟩, .raised cause stack _⟩).head
    ⟨⟨{}, [], ⟨0⟩⟩, .fail (.done cause) stack _ false⟩

end Place.Leads

namespace Machine

variable {twins : Matching σ} {id : FiberId} {heap heap' : Heap σ} {thread thread' : Thread σ}
  {focus focus' : Focus σ} {stack stack' : List (Frame σ)}

/-! ### Silent steps -/

/-- A silent step of a loop does nothing else. -/
theorem stepLoop_of_silent {place : Place σ} (silent : Place.Silent (.active focus stack) place)
    (undue : heap.shouldInterrupt id = false) (thread : Thread σ) :
    ∃ focus' stack' after, place = .active focus' stack' ∧
      stepLoop heap thread id stack focus = (after, refocus thread id focus' stack') ∧
      heap.Counts after := by
  obtain ⟨holding, silent⟩ := silent
  cases silent with
  | succeed | fail =>
    exact ⟨_, _, heap, rfl, by rw [stepLoop, undue]; rfl, .refl heap⟩
  | flatMap effect continuation =>
    exact ⟨_, _, _, rfl, by rw [stepLoop, undue]; rfl, heap.counts_report _ _ rfl⟩
  | value value frame stack => exact ⟨_, _, _, rfl, rfl, heap.counts_report _ _ rfl⟩
  | built | raised => exact ⟨_, _, heap, rfl, rfl, .refl heap⟩

/-- Silent steps neither begin nor end a registration. -/
theorem registering_of_leads (leads : Place.Leads (.active focus stack) (.active focus' stack')) :
    focus'.registering? = focus.registering? := by
  generalize start : Place.active focus stack = place at leads
  induction leads using Relation.ReflTransGen.head_induction_on generalizing focus stack with
  | refl => cases start; rfl
  | head silent _ ih =>
    cases start
    obtain ⟨holding, silent⟩ := silent
    cases silent
    all_goals
      have same := ih rfl
      exact same

/-- Some steps of a thread to points that fit, in none of which a fiber is interrupted. -/
def Goes (id : FiberId) (fits : Heap σ × Thread σ → Prop) :
    Heap σ × Thread σ → Heap σ × Thread σ → Prop :=
  Relation.ReflTransGen fun before after =>
    before.1.shouldInterrupt id = false ∧ after = step before.1 before.2 ∧ fits after

theorem step_of_push (heap : Heap σ) (calm : thread.panicking = none) (activation : Activation σ) :
    step heap (thread.push activation) = advance heap thread activation := by
  have pushed : (thread.push activation).panicking = none := calm
  rw [step_of_next? heap pushed rfl]
  rfl

/-- A loop that silent steps lead somewhere goes there, and nothing else changes. -/
theorem goes_of_leads (fits : Heap σ × Thread σ → Prop) (calm : thread.panicking = none)
    (undue : heap.shouldInterrupt id = false)
    (leads : Place.Leads (.active focus stack) (.active focus' stack'))
    (fitting : ∀ after focus stack, heap.Counts after →
      Place.Leads (.active focus stack) (.active focus' stack') →
      fits (after, thread.push (.loop id focus stack))) :
    ∃ after, Goes id fits (heap, thread.push (.loop id focus stack))
        (after, thread.push (.loop id focus' stack')) ∧ heap.Counts after := by
  generalize start : Place.active focus stack = place at leads
  induction leads using Relation.ReflTransGen.head_induction_on generalizing focus stack heap with
  | refl =>
    cases start
    exact ⟨heap, .refl, .refl heap⟩
  | head silent leads ih =>
    cases start
    obtain ⟨focus₁, stack₁, middle, rfl, step, counts⟩ := stepLoop_of_silent silent undue thread
    have undue' : middle.shouldInterrupt id = false := by
      obtain ⟨events, rfl, _⟩ := counts
      exact undue
    obtain ⟨after, goes, counts'⟩ := ih undue' (fun after focus stack counts' =>
      fitting after focus stack (counts.trans counts')) rfl
    refine ⟨after, .head ⟨undue, ?_, fitting middle focus₁ stack₁ counts leads⟩ goes,
      counts.trans counts'⟩
    rw [step_of_push heap calm]
    exact step.symm

/-! ### Rejoining -/

/-- Silent steps lead two places to where their loops do the same. -/
def Rejoins (twins : Matching σ) (id : FiberId) (place place' : Place σ) : Prop :=
  ∃ focus stack focus' stack', place.Leads (.active focus stack) ∧
    place'.Leads (.active focus' stack') ∧ Lockstep twins id focus stack focus' stack'

theorem Rejoins.of_leads {place place' next next' : Place σ} (leads : place.Leads next)
    (leads' : place'.Leads next') (h : Rejoins twins id next next') :
    Rejoins twins id place place' := by
  obtain ⟨focus, stack, focus', stack', on, on', lockstep⟩ := h
  exact ⟨focus, stack, focus', stack', leads.trans on, leads'.trans on', lockstep⟩

/-- Threads are near each other if they are twins, or if their innermost loops are those of one
fiber and rejoin. -/
inductive Near (twins : Matching σ) (id : FiberId) : Thread σ → Thread σ → Prop where
  | twin {thread thread' : Thread σ} (twin : thread.Twin twins thread') :
      Near twins id thread thread'
  | apart {thread thread' : Thread σ} {focus focus' : Focus σ} {stack stack' : List (Frame σ)}
      (twin : thread.Twin twins thread') (calm : thread.panicking = none)
      (rejoins : Rejoins twins id (.active focus stack) (.active focus' stack')) :
      Near twins id (thread.push (.loop id focus stack)) (thread'.push (.loop id focus' stack'))

/-- Twin heaps, and threads that are near each other. -/
structure Beside (twins : Matching σ) (id : FiberId) (point point' : Heap σ × Thread σ) : Prop where
  heap : point.1.Twin twins point'.1
  near : Near twins id point.2 point'.2

/-! ### The other way round -/

theorem owns_of_registering (heaps : heap.Twin twins heap')
    (same : focus'.registering? = focus.registering?) (owns : focus.Owns id heap) :
    focus'.Owns id heap' := by
  intro callback registering
  obtain ⟨state, there⟩ := owns callback (same.symm.trans registering)
  have twin := heaps.suspension? callback
  rw [there] at twin
  generalize heap'.suspension? callback = suspension' at twin ⊢
  cases twin with
  | @some _ suspension' twin =>
    obtain ⟨fiber', state'⟩ := suspension'
    cases twin.fiber
    exact ⟨state', rfl⟩

theorem Lockstep.flip (h : Lockstep twins id focus stack focus' stack') :
    Lockstep twins.flip id focus' stack' focus stack where
  registering := h.registering.symm
  twin heaps threads owns :=
    have both := h.twin heaps.flip threads.flip (owns_of_registering heaps h.registering.symm owns)
    ⟨both.heap.flip, both.thread.flip⟩

theorem Rejoins.flip {place place' : Place σ} (h : Rejoins twins id place place') :
    Rejoins twins.flip id place' place := by
  obtain ⟨focus, stack, focus', stack', leads, leads', lockstep⟩ := h
  exact ⟨focus', stack', focus, stack, leads', leads, lockstep.flip⟩

theorem Near.flip (h : Near twins id thread thread') : Near twins.flip id thread' thread := by
  cases h with
  | twin twin => exact .twin twin.flip
  | apart twin calm rejoins => exact .apart twin.flip (twin.panicking.trans calm) rejoins.flip

/-- Of loops that rejoin, either both run the registration of one callback, or neither runs any. -/
theorem Rejoins.registering (h : Rejoins twins id (.active focus stack) (.active focus' stack')) :
    focus'.registering? = focus.registering? := by
  obtain ⟨goal, frames, goal', frames', leads, leads', lockstep⟩ := h
  exact ((registering_of_leads leads').symm.trans lockstep.registering).trans
    (registering_of_leads leads)

/-- Matching whose innermost loops are those of one fiber. -/
theorem exists_push_of_next? (twin : thread.Twin twins thread')
    (next : thread.next? = some (.loop id focus stack)) :
    ∃ (under under' : Thread σ) (focus' : Focus σ) (stack' : List (Frame σ)),
      thread = under.push (.loop id focus stack) ∧
      thread' = under'.push (.loop id focus' stack') ∧ under.Twin twins under' ∧
      under.panicking = none ∧ twins id (.active focus stack) (.active focus' stack') := by
  obtain ⟨calm, rest, control⟩ := Thread.next?_eq_some_iff.mp next
  obtain ⟨number, name, role, pending, _, panicking⟩ := thread
  obtain ⟨number', name', role', pending', control', panicking'⟩ := thread'
  cases control
  cases calm
  have controls := twin.control
  dsimp only at controls
  cases controls with
  | cons first others =>
    cases first with
    | loop place =>
      exact ⟨⟨number, name, role, pending, rest, none⟩,
        ⟨number', name', role', pending', _, panicking'⟩, _, _, rfl, rfl,
        { twin with control := others }, rfl, place⟩

/-- What a thread does, one that is near it does after some silent steps, or it waits. -/
theorem near_step (coherent : twins.Coherent) (heaps : heap.Twin twins heap')
    (near : Near twins id thread thread') (undue : heap.shouldInterrupt id = false)
    (owns : ∀ fiber focus stack, thread.next? = some (.loop fiber focus stack) →
      focus.Owns fiber heap)
    (only : twins.Only id)
    (rejoins : ∀ focus stack focus' stack', thread.next? = some (.loop id focus stack) →
      thread'.next? = some (.loop id focus' stack') →
      twins id (.active focus stack) (.active focus' stack') →
      Rejoins twins id (.active focus stack) (.active focus' stack')) :
    Beside twins id (step heap thread) (heap', thread') ∨
      ∃ middle, Goes id (Beside twins id (heap, thread)) (heap', thread') middle ∧
        Beside twins id (step heap thread) (step middle.1 middle.2) := by
  have undue' : heap'.shouldInterrupt id = false := (heaps.shouldInterrupt_eq id).trans undue
  -- A loop that has silent steps to go takes one; one that has none waits for its twin to catch up.
  have parted {under under' : Thread σ} {focus focus' : Focus σ} {stack stack' : List (Frame σ)}
      (twin : under.Twin twins under') (calm : under.panicking = none)
      (rejoins : Rejoins twins id (.active focus stack) (.active focus' stack'))
      (own : focus.Owns id heap) :
      Beside twins id (step heap (under.push (.loop id focus stack)))
          (heap', under'.push (.loop id focus' stack')) ∨
        ∃ middle, Goes id (Beside twins id (heap, under.push (.loop id focus stack)))
            (heap', under'.push (.loop id focus' stack')) middle ∧
          Beside twins id (step heap (under.push (.loop id focus stack)))
            (step middle.1 middle.2) := by
    obtain ⟨goal, frames, goal', frames', leads, leads', lockstep⟩ := rejoins
    have calm' : under'.panicking = none := twin.panicking.trans calm
    rw [step_of_push heap calm]
    rcases Relation.ReflTransGen.cases_head leads with arrived | ⟨next, silent, leads⟩
    · cases arrived
      -- This side has arrived, so the other one goes all its silent steps first.
      have rejoining {focus' : Focus σ} {stack' : List (Frame σ)}
          (leads' : Place.Leads (.active focus' stack') (.active goal' frames')) :
          Rejoins twins id (.active focus stack) (.active focus' stack') :=
        ⟨focus, stack, goal', frames', .refl _, leads', lockstep⟩
      obtain ⟨after, goes, counts⟩ :=
        goes_of_leads (Beside twins id (heap, under.push (.loop id focus stack))) calm' undue'
          leads' fun after _ _ counts leads' =>
            ⟨heaps.of_counts (.refl heap) counts, .apart twin calm (rejoining leads')⟩
      have both := lockstep.twin (heaps.of_counts (.refl heap) counts) twin own
      refine .inr ⟨_, goes, ?_⟩
      rw [step_of_push after calm']
      exact ⟨both.heap, .twin both.thread⟩
    -- This side goes one silent step, and the other one waits.
    · obtain ⟨focus₁, stack₁, after, rfl, step, counts⟩ := stepLoop_of_silent silent undue under
      refine .inl ?_
      show Beside twins id (stepLoop heap under id stack focus) _
      rw [step]
      exact ⟨heaps.of_counts counts (.refl heap'),
        .apart twin calm ⟨goal, frames, goal', frames', leads, leads', lockstep⟩⟩
  cases near with
  | apart twin calm rejoining =>
    exact parted twin calm rejoining
      (owns id _ _ (Thread.next?_eq_some_iff.mpr ⟨calm, _, rfl⟩))
  | twin twin =>
    by_cases head : ∃ focus stack, thread.next? = some (.loop id focus stack)
    · obtain ⟨focus, stack, next⟩ := head
      have own := owns id focus stack next
      obtain ⟨under, under', focus', stack', rfl, rfl, twin, calm, place⟩ :=
        exists_push_of_next? twin next
      have next' : (under'.push (.loop id focus' stack')).next? = some (.loop id focus' stack') :=
        Thread.next?_eq_some_iff.mpr ⟨twin.panicking.trans calm, _, rfl⟩
      exact parted twin calm (rejoins focus stack focus' stack' next next' place) own
    -- No loop of the fiber is on top, so both threads do the same.
    · have both := twin_step coherent heaps twin fun fiber focus stack _ _ next next' => by
        have other : fiber ≠ id := fun own => head ⟨focus, stack, own ▸ next⟩
        obtain ⟨_, _, _, _, rfl, rfl, _, _, place⟩ := exists_push_of_next? twin next
        obtain ⟨-, rest, control⟩ := Thread.next?_eq_some_iff.mp next'
        cases control
        cases only fiber _ _ other place
        exact ⟨owns fiber focus stack next, lockstep_refl coherent fiber focus stack⟩
      exact .inr ⟨_, .refl, both.heap, .twin both.thread⟩

end Machine

end Fibers
