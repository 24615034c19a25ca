import Fibers.Proofs.Machine.Handover
import Fibers.Proofs.Strand.Step

/-!
# Turns

A step of a thread is the work of at most one fiber, the one whose loop is innermost.

## Main results

`Turn` says what a step does to all other fibers: it hands their work around, or leaves them alone.
`Turn.of_handover`, `Turn.of_loop` and `Turn.of_executes` are the ways in which a step ends, and
`Turn.of_ownChange` adds what it first does to its own fiber.
-/

namespace Fibers

variable {σ : Type}

theorem Handed.add_right {before after : Multiset (Place σ)} (h : Handed before after)
    (rest : Multiset (Place σ)) : Handed (before + rest) (after + rest) := by
  cases h with
  | fewer le => exact .fewer (add_le_add_left le rest)
  | resumed callback stack value others =>
    rw [Multiset.cons_add, Multiset.cons_add]
    exact .resumed callback stack value (others + rest)

/-- A heap, and what of the threads is in view. -/
@[ext]
structure Scene (σ : Type) where
  heap : Heap σ
  /-- The places of each fiber in the heap and on the threads in view. -/
  places : FiberId → Multiset (Place σ)
  /-- Whether an activation is under way on a thread in view. -/
  underWay : Activation σ → Prop
  /-- Whether an activation in view may be in the middle of a request. -/
  covered : Activation σ → Prop
  underWay_of_covered : ∀ activation, covered activation → underWay activation
  within : ∀ activation, underWay activation → ∀ id, activation.places id ≤ places id

/-- What a step does to all fibers but those that act in it. -/
structure Turn (acts : FiberId → Prop) (before after : Scene σ) : Prop where
  known : ∀ id, before.heap.Knows id → ¬acts id → Handed (before.places id) (after.places id)
  unknown : ∀ id, ¬before.heap.Knows id → before.places id = 0 →
    (after.places id).card ≤ 1 ∧ (¬after.heap.Knows id → after.places id = 0)
  knows : ∀ id, before.heap.Knows id → after.heap.Knows id
  fibers : ∀ id fiber, before.heap.Knows id → ¬acts id → before.heap.fiber? id = some fiber →
    ∃ fiber', after.heap.fiber? id = some fiber' ∧ fiber.Kept fiber'
  newcomers : ∀ id fiber, ¬before.heap.Knows id → after.heap.Knows id →
    after.heap.fiber? id = some fiber → fiber.exit? = none
  suspensions : ∀ callback suspension, before.heap.suspension? callback = some suspension →
    ∃ suspension', after.heap.suspension? callback = some suspension' ∧
      suspension'.fiber = suspension.fiber ∧ (¬acts suspension.fiber → suspension.Kept suspension')
  control : ∀ activation, after.underWay activation →
    before.underWay activation ∨ activation.Meets after.heap
  covered : ∀ activation id, after.covered activation → activation.Runs id → ¬acts id →
    before.covered activation

/-- Places are lost or moved about. -/
theorem Turn.of_le {acts : FiberId → Prop} {before after : Scene σ}
    (heap : before.heap.Quiet after.heap) (le : ∀ id, after.places id ≤ before.places id)
    (control : ∀ activation, after.underWay activation →
      before.underWay activation ∨ activation.Meets after.heap)
    (covered : ∀ activation id, after.covered activation → activation.Runs id →
      before.covered activation) : Turn acts before after where
  known id _ _ := .fewer (le id)
  unknown id _ none := by
    have lost : after.places id = 0 := Multiset.le_zero.mp (none ▸ le id)
    rw [lost]
    exact ⟨Nat.zero_le 1, fun _ => rfl⟩
  knows id := (heap.known id).mp
  fibers id fiber _ _ present := heap.fibers id.index fiber present
  newcomers id _ unknown known _ := absurd ((heap.known id).mpr known) unknown
  suspensions callback suspension present := by
    obtain ⟨suspension', present', kept⟩ := heap.suspensions callback suspension present
    exact ⟨suspension', present', kept.fiber, fun _ => kept⟩
  control := control
  covered activation id mem runs _ := covered activation id mem runs

/-- More threads come into view. -/
def Scene.add (scene : Scene σ) (threads : List (Thread σ)) : Scene σ where
  heap := scene.heap
  places id := scene.places id + (threads.map fun thread => thread.places id).sum
  underWay activation :=
    scene.underWay activation ∨ ∃ thread ∈ threads, activation ∈ thread.control
  covered activation :=
    scene.covered activation ∨ ∃ thread ∈ threads, activation ∈ thread.covered
  underWay_of_covered activation mem := mem.imp (scene.underWay_of_covered activation)
    fun ⟨thread, known, mem⟩ => ⟨thread, known, Thread.mem_control_of_covered mem⟩
  within activation mem id := by
    rcases mem with mem | ⟨thread, known, mem⟩
    · exact (scene.within activation mem id).trans (Multiset.le_add_right _ _)
    · have here : thread.places id ≤ (threads.map fun thread => thread.places id).sum :=
        List.le_sum_of_mem (List.mem_map_of_mem known)
      exact ((Activation.places_le mem id).trans here).trans (Multiset.le_add_left _ _)

/-- What a step does on one thread it does in view of all. -/
theorem Turn.add {acts : FiberId → Prop} {before after : Scene σ} (h : Turn acts before after)
    (threads : List (Thread σ)) : Turn acts (before.add threads) (after.add threads) where
  known id known idle := (h.known id known idle).add_right _
  unknown id unknown none := by
    obtain ⟨own, others⟩ := add_eq_zero.mp none
    simpa only [Scene.add, others, add_zero] using h.unknown id unknown own
  knows := h.knows
  fibers := h.fibers
  newcomers := h.newcomers
  suspensions := h.suspensions
  control activation mem := by
    rcases mem with mem | mem
    · exact (h.control activation mem).imp_left .inl
    · exact .inl (.inr mem)
  covered activation id mem runs idle :=
    mem.imp_left fun mem => h.covered activation id mem runs idle

namespace Machine

/-- The places of a fiber in the heap and on one thread. -/
def held (heap : Heap σ) (thread : Thread σ) (id : FiberId) : Multiset (Place σ) :=
  heap.places id + thread.places id

/-- One thread in view. -/
abbrev scene (heap : Heap σ) (thread : Thread σ) : Scene σ where
  heap := heap
  places := held heap thread
  underWay := (· ∈ thread.control)
  covered := (· ∈ thread.covered)
  underWay_of_covered _ := Thread.mem_control_of_covered
  within _ mem id := (Activation.places_le mem id).trans (Multiset.le_add_left _ _)

/-- One thread in view, of which an activation has been taken off that was on top of the others. -/
abbrev taken (heap : Heap σ) (thread : Thread σ) : Scene σ :=
  { scene heap thread with
    covered := (· ∈ thread.control)
    underWay_of_covered := fun _ => id }

/-! ### Handing work around is a turn of nobody -/

theorem Handover.knows {heap heap' : Heap σ} {thread thread' : Thread σ}
    (h : Handover heap thread heap' thread') (id : FiberId) (known : heap.Knows id) :
    heap'.Knows id := by
  obtain ⟨index, small, rfl⟩ := known
  obtain ⟨fiber', present, _⟩ := h.fibers index _ (Array.getElem?_eq_getElem small)
  exact ⟨index, (Array.getElem?_eq_some_iff.mp present).1, rfl⟩

theorem Handover.newcomer {heap heap' : Heap σ} {thread thread' : Thread σ}
    (h : Handover heap thread heap' thread') {id : FiberId} {fiber : FiberState σ}
    (unknown : ¬heap.Knows id) (known : heap'.Knows id) (present : heap'.fiber? id = some fiber) :
    fiber.exit? = none := by
  obtain ⟨index, _, rfl⟩ := known
  refine h.newcomers index fiber (Array.getElem?_eq_none_iff.mpr ?_) present
  exact Nat.le_of_not_lt fun small => unknown ⟨index, small, rfl⟩

end Machine

open Machine

theorem Turn.of_handover {heap heap' : Heap σ} {thread thread' : Thread σ}
    (h : Handover heap thread heap' thread') (calm : thread.panicking = none)
    (acts : FiberId → Prop) : Turn acts (taken heap thread) (scene heap' thread') where
  known id known _ := by
    obtain ⟨gained, onThread, handed⟩ := h.known id known
    dsimp only [held]
    rw [onThread, ← add_assoc]
    exact handed.add_right _
  unknown id unknown none := by
    obtain ⟨inHeap, onThread⟩ := add_eq_zero.mp none
    obtain ⟨gained, gain, card, zero⟩ := h.unknown id unknown inHeap
    rw [onThread, add_zero] at gain
    dsimp only [held]
    rw [gain]
    exact ⟨card, zero⟩
  knows := h.knows
  fibers id fiber _ _ present := h.fibers id.index fiber present
  newcomers _ _ unknown known present := h.newcomer unknown known present
  suspensions callback suspension present := by
    obtain ⟨suspension', present', kept⟩ := h.suspensions callback suspension present
    exact ⟨suspension', present', kept.fiber, fun _ => kept⟩
  control activation mem := by
    obtain ⟨begun, control, meets⟩ := h.control.control
    dsimp only at mem
    rw [control, List.mem_append] at mem
    exact mem.symm.imp id fun mem => meets activation mem heap'
  covered activation id mem runs _ := h.control.covered calm activation mem id runs

/-! ### A fiber changes what is its own -/

/-- A change of the heap to what belongs to one fiber: its state and its suspensions. -/
structure Heap.OwnChange (id : FiberId) (fiber' : FiberState σ) (before after : Heap σ) :
    Prop where
  places : ∀ other, other ≠ id → after.places other = before.places other
  known : ∀ other, before.Knows other ↔ after.Knows other
  own : after.fiber? id = some fiber'
  fibers : ∀ other, before.Knows other → other ≠ id → after.fiber? other = before.fiber? other
  suspensions : ∀ callback suspension, before.suspension? callback = some suspension →
    ∃ suspension', after.suspension? callback = some suspension' ∧
      suspension'.fiber = suspension.fiber ∧
        (suspension.fiber ≠ id → suspension.Kept suspension')

theorem Heap.Knows.index_ne {heap : Heap σ} {a b : FiberId} (ha : heap.Knows a)
    (hb : heap.Knows b) (ne : a ≠ b) : b.index ≠ a.index := by
  obtain ⟨i, _, rfl⟩ := ha
  obtain ⟨j, _, rfl⟩ := hb
  rintro (rfl : j = i)
  exact ne rfl

theorem Heap.ownChange_updateFiber {heap : Heap σ} {id : FiberId} {fiber : FiberState σ}
    (knows : heap.Knows id) (present : heap.fiber? id = some fiber)
    {f : FiberState σ → FiberState σ} (seed : ∀ fiber, (f fiber).seed = fiber.seed) :
    heap.OwnChange id (f fiber) (heap.updateFiber id f) where
  places other _ := heap.places_updateFiber id other f seed
  known other := (heap.knows_updateFiber id other f).symm
  own := by
    rw [Heap.fiber?] at present
    rw [Heap.fiber?, heap.fibers_updateFiber, if_pos rfl, present]
    rfl
  fibers other known ne := by
    rw [Heap.fiber?, heap.fibers_updateFiber, if_neg (known.index_ne knows ne)]
    rfl
  suspensions _ suspension present := ⟨suspension, present, rfl, fun _ => .refl suspension⟩

theorem Heap.ownChange_refl {heap : Heap σ} {id : FiberId} {fiber : FiberState σ}
    (present : heap.fiber? id = some fiber) : heap.OwnChange id fiber heap where
  places _ _ := rfl
  known _ := Iff.rfl
  own := present
  fibers _ _ _ := rfl
  suspensions _ suspension present := ⟨suspension, present, rfl, fun _ => .refl suspension⟩

theorem Heap.ownChange_addSuspension {heap : Heap σ} {id : FiberId} {fiber : FiberState σ}
    (present : heap.fiber? id = some fiber) : heap.OwnChange id fiber (heap.addSuspension id) where
  places other _ := heap.places_addSuspension id other
  known _ := Iff.rfl
  own := present
  fibers _ _ _ := rfl
  suspensions callback suspension present := by
    have small : callback.index < heap.suspensions.size :=
      (Array.getElem?_eq_some_iff.mp present).1
    refine ⟨suspension, ?_, rfl, fun _ => .refl suspension⟩
    rw [Heap.suspension?, Heap.addSuspension, Array.getElem?_push, if_neg small.ne]
    exact present

/-- The rendezvous of a fiber is its own. -/
theorem Heap.ownChange_setRendezvous {heap : Heap σ} {id : FiberId} {fiber : FiberState σ}
    (present : heap.fiber? id = some fiber) {callback : CallbackId} {suspension : Suspension σ}
    (known : heap.suspension? callback = some suspension) (own : suspension.fiber = id)
    (state : Rendezvous σ) : heap.OwnChange id fiber (heap.setRendezvous callback state) where
  places other ne := by
    obtain ⟨rest, before, after⟩ := Heap.places_setRendezvous known state other
    have ne : suspension.fiber ≠ other := own ▸ ne.symm
    rw [before, after]
    simp only [Suspension.places, if_neg ne]
    split <;> split <;> rfl
  known _ := Iff.rfl
  own := present
  fibers _ _ _ := rfl
  suspensions other otherSuspension present := by
    rw [Heap.suspension?_setRendezvous, present]
    split
    next same =>
      obtain rfl := CallbackId.ext_index same
      cases known.symm.trans present
      exact ⟨_, rfl, rfl, fun ne => absurd own ne⟩
    next => exact ⟨_, rfl, rfl, fun _ => .refl _⟩

theorem Heap.OwnChange.report {heap middle : Heap σ} {id : FiberId} {fiber' : FiberState σ}
    (h : heap.OwnChange id fiber' middle) (thread : ThreadId) (severity : Severity)
    (event : Unit → Event) : heap.OwnChange id fiber' (middle.report thread severity event) := by
  obtain ⟨fibers, suspensions⟩ := middle.tables_report thread severity event
  refine ⟨fun other ne => ?_, fun other => ?_, ?_, fun other known ne => ?_, ?_⟩
  · rw [Heap.places_report, h.places other ne]
  · rw [h.known other, Heap.Knows, Heap.Knows, fibers]
  · rw [Heap.fiber?, fibers]
    exact h.own
  · rw [Heap.fiber?, fibers]
    exact h.fibers other known ne
  · intro callback suspension present
    rw [Heap.suspension?, suspensions]
    exact h.suspensions callback suspension present

theorem Heap.OwnChange.trans {first second third : Heap σ} {id : FiberId}
    {fiber fiber' : FiberState σ} (h : first.OwnChange id fiber second)
    (h' : second.OwnChange id fiber' third) : first.OwnChange id fiber' third where
  places other ne := (h'.places other ne).trans (h.places other ne)
  known other := (h.known other).trans (h'.known other)
  own := h'.own
  fibers other known ne :=
    (h'.fibers other ((h.known other).mp known) ne).trans (h.fibers other known ne)
  suspensions callback suspension present := by
    obtain ⟨middle, present, same, kept⟩ := h.suspensions callback suspension present
    obtain ⟨last, present', same', kept'⟩ := h'.suspensions callback middle present
    refine ⟨last, present', same'.trans same, fun ne => ⟨same'.trans same, fun meeting => ?_⟩⟩
    exact (kept' (same ▸ ne)).meeting ((kept ne).meeting meeting)

theorem Heap.OwnChange.noteDefect {heap middle : Heap σ} {id : FiberId} {fiber' : FiberState σ}
    (h : heap.OwnChange id fiber' middle) (thread : ThreadId) (payload : Payload) :
    heap.OwnChange id fiber' (middle.noteDefect thread payload) := by
  have counted : heap.OwnChange id fiber' { middle with defects := middle.defects + 1 } :=
    ⟨h.places, h.known, h.own, h.fibers, h.suspensions⟩
  exact counted.report thread .warn _

/-- What a fiber does to its own is no matter of the others. -/
theorem Turn.of_ownChange {heap middle heap' : Heap σ} {thread thread' : Thread σ} {id : FiberId}
    {fiber' : FiberState σ} (own : heap.OwnChange id fiber' middle) (knows : heap.Knows id)
    (turn : Turn (· = id) (taken middle thread) (scene heap' thread')) :
    Turn (· = id) (taken heap thread) (scene heap' thread') where
  known other known ne := by
    have handed := turn.known other ((own.known other).mp known) ne
    dsimp only [held] at handed ⊢
    rwa [own.places other ne] at handed
  unknown other unknown none := by
    have ne : other ≠ id := fun same => unknown (same ▸ knows)
    refine turn.unknown other (fun known => unknown ((own.known other).mpr known)) ?_
    dsimp only [held] at none ⊢
    rwa [own.places other ne]
  knows other known := turn.knows other ((own.known other).mp known)
  fibers other fiber known ne present := by
    rw [← own.fibers other known ne] at present
    exact turn.fibers other fiber ((own.known other).mp known) ne present
  newcomers other fiber unknown known present :=
    turn.newcomers other fiber (fun known => unknown ((own.known other).mpr known)) known present
  suspensions callback suspension present := by
    obtain ⟨first, present, same, kept⟩ := own.suspensions callback suspension present
    obtain ⟨second, present', same', kept'⟩ := turn.suspensions callback first present
    refine ⟨second, present', same'.trans same, fun ne => ⟨same'.trans same, fun meeting => ?_⟩⟩
    exact (kept' (same ▸ ne)).meeting ((kept ne).meeting meeting)
  control := turn.control
  covered := turn.covered

/-- A loop that is put back on its thread is a place of its own fiber only. -/
theorem Turn.of_loop {heap heap' : Heap σ} {thread thread' : Thread σ} {id : FiberId}
    {focus : Focus σ} {stack : List (Frame σ)}
    (handed : Handover heap (thread.push (.loop id focus stack)) heap' thread')
    (calm : thread.panicking = none) (knows : heap.Knows id)
    (meets : (Activation.loop id focus stack).Meets heap) :
    Turn (· = id) (taken heap thread) (scene heap' thread') := by
  have turn := Turn.of_handover handed calm (· = id)
  have others : ∀ other, other ≠ id →
      held heap (thread.push (.loop id focus stack)) other = held heap thread other := by
    intro other ne
    rw [held, Thread.places_push, Activation.places, if_neg ne.symm, zero_add, held]
  refine ⟨fun other known ne => ?_, fun other unknown none => ?_, turn.knows, turn.fibers,
    turn.newcomers, turn.suspensions, fun activation mem => ?_,
    fun activation other mem runs ne => ?_⟩
  · have handed := turn.known other known ne
    dsimp only at handed ⊢
    rwa [others other ne] at handed
  · have ne : other ≠ id := fun same => unknown (same ▸ knows)
    exact turn.unknown other unknown ((others other ne).trans none)
  · rcases turn.control activation mem with old | new
    · rcases List.mem_cons.mp old with rfl | old
      · exact .inr (Activation.meets_of_kept handed.suspensions meets)
      · exact .inl old
    · exact .inr new
  · rcases List.mem_cons.mp (turn.covered activation other mem runs ne) with rfl | old
    · exact absurd runs.symm ne
    · exact old

/-- A task of a fiber is a place of that fiber only. -/
theorem Turn.of_executes {heap heap' : Heap σ} {thread thread' : Thread σ} {task : Task σ}
    (executes : Executes heap thread task heap' thread') (calm : thread.panicking = none)
    (own : heap.Knows task.batch.fiber) :
    Turn (· = task.batch.fiber) (taken heap thread) (scene heap' thread') := by
  obtain ⟨fibers, suspensions, places, control⟩ := executes
  have same : ∀ other, other ≠ task.batch.fiber →
      held heap' thread' other = held heap thread other := by
    intro other ne
    obtain ⟨gained, onThread, inHeap⟩ := places other
    rw [Batch.places, if_neg ne.symm, zero_add, or_self] at inHeap
    rw [held, onThread, ← add_assoc, inHeap, held]
  have knows : ∀ other, heap'.Knows other ↔ heap.Knows other := fun other => by
    rw [Heap.Knows, Heap.Knows, fibers]
  refine ⟨fun other _ ne => ?_, fun other unknown none => ?_, fun other => (knows other).mpr,
    fun other fiber _ _ present => ?_, fun other _ unknown known _ => ?_,
    fun callback suspension present => ?_, fun activation mem => ?_,
    fun activation id mem runs _ => control.covered calm activation mem id runs⟩
  · exact .fewer (same other ne).le
  · have ne : other ≠ task.batch.fiber := fun same => unknown (same ▸ own)
    dsimp only at none ⊢
    rw [same other ne, none]
    exact ⟨Nat.zero_le 1, fun _ => rfl⟩
  · exact ⟨fiber, by rw [Heap.fiber?, fibers]; exact present, .refl fiber⟩
  · exact absurd ((knows other).mp known) unknown
  · exact ⟨suspension, by rw [Heap.suspension?, suspensions]; exact present, rfl,
      fun _ => .refl suspension⟩
  · obtain ⟨begun, control, meets⟩ := control.control
    dsimp only at mem
    rw [control, List.mem_append] at mem
    exact mem.symm.imp id fun mem => meets activation mem heap'

end Fibers
