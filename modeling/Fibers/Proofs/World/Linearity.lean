import Fibers.Proofs.Strand.Ledger
import Fibers.Proofs.World.Finalizer
import Fibers.Proofs.World.Loss
import Fibers.Proofs.World.Shelter

/-!
# Frames are used once

A fiber takes its frames along wherever it goes: into a batch, a task or a suspension, and back onto
some thread. What happens to them in one step of a machine is written down by `World.Deals`.

## Main result

`World.frames_linear`: from the moment a machine was made, the books of every fiber balance. Every
frame that it pushes is used at most once, the newest first, in a way that suits the frame, and the
frames that are not used yet are those on its stack. None is left when the fiber has ended.

## Proof strategy

A fiber in view takes the moves of a strand, with which its books go on (`Ledger.Tells.moves`). So
what is left is how it begins (`Run.begins`) and how it disappears: with an outcome for no frame
(`Ledger.Tells.ends`), or because its work is given up (`Run.loses`).
-/

namespace Fibers

variable {σ : Type}

namespace World

variable {run : Nat → World σ} {id : FiberId} {n : Nat} {ledger : Ledger σ}

/-- What happens to the frames of a fiber in one step of a run. -/
inductive Deals (run : Nat → World σ) (id : FiberId) (n : Nat) : List (Entry σ) → Prop where
  /-- The fiber goes from its place to another one, or stays there. -/
  | goes {place place' : Place σ} {entries : List (Entry σ)}
      (before : (run n).places id = {place}) (after : (run (n + 1)).places id = {place'})
      (deals : place.Deals ((run n).heap.status id) (TakesEffect run id n) place' entries) :
      Deals run id n entries
  /-- The fiber ends. No handler is left, and the frames that are left never run. -/
  | ended {place : Place σ} {exit : Exit Erased} (before : (run n).places id = {place})
      (after : (run (n + 1)).places id = 0)
      (exited : (run (n + 1)).heap.poll id = some exit) (reaches : place.Reaches [] exit) :
      Deals run id n (place.stack.map fun _ => .used .discarded)
  /-- The work of the fiber is given up, with all its frames. -/
  | lost {place : Place σ} (before : (run n).places id = {place})
      (after : (run (n + 1)).places id = 0) (running : (run (n + 1)).heap.poll id = none)
      (loses : Loses (run n) (run (n + 1)) id place) : Deals run id n []
  /-- The fiber begins with its effect and without frames. -/
  | begun (effect : Node σ) (before : ¬(run n).heap.Knows id)
      (after : (run (n + 1)).places id = {.active (.node effect) []}) : Deals run id n []
  /-- The fiber is nowhere. -/
  | absent (before : (run n).places id = 0) (after : (run (n + 1)).places id = 0)
      (same : (run (n + 1)).heap.poll id = (run n).heap.poll id) : Deals run id n []

/-- The frames of a fiber are used linearly: one thing happens to them in every step of a run, and
the books of all that has happened balance. -/
structure Linear (run : Nat → World σ) (id : FiberId) : Prop where
  deals : ∀ n, ∃! entries, Deals run id n entries
  books : ∀ entries : Nat → List (Entry σ), (∀ n, Deals run id n (entries n)) → ∀ n,
    ∃ ledger, ({} : Ledger σ).book ((List.range n).flatMap entries) = some ledger ∧
      ledger.Sound ∧ (∀ place ∈ (run n).places id, ledger.frames = place.stack) ∧
      ∀ exit, (run n).heap.poll id = some exit → ledger.held = []

/-! ### One step -/

/-- What happens to the frames in a step is seen from where the fiber is before and after. -/
theorem Deals.unique (h : Run run) {entries entries' : List (Entry σ)}
    (deals : Deals run id n entries) (deals' : Deals run id n entries') : entries = entries' := by
  have known {place : Place σ} (there : (run n).places id = {place}) : (run n).heap.Knows id :=
    ((h.owned n).placed there).1
  have somewhere {m : Nat} {place : Place σ} (there : (run m).places id = {place})
      (gone : (run m).places id = 0) : False :=
    Multiset.singleton_ne_zero _ (there.symm.trans gone)
  -- A fiber that is somewhere is known and has not ended, which tells the cases apart.
  cases deals with
  | goes before after deals =>
    cases deals' with
    | goes before' after' deals' =>
      cases Multiset.singleton_inj.mp (before.symm.trans before')
      cases Multiset.singleton_inj.mp (after.symm.trans after')
      exact deals.unique deals'
    | ended _ gone | lost _ gone | absent _ gone => exact (somewhere after gone).elim
    | begun _ unknown => exact absurd (known before) unknown
  | ended before gone exited =>
    cases deals' with
    | goes _ after => exact (somewhere after gone).elim
    | ended before' =>
      cases Multiset.singleton_inj.mp (before.symm.trans before')
      rfl
    | lost _ _ running => cases running.symm.trans exited
    | begun _ _ after => exact (somewhere after gone).elim
    | absent nowhere => exact (somewhere before nowhere).elim
  | lost before gone running =>
    cases deals' with
    | goes _ after => exact (somewhere after gone).elim
    | ended _ _ exited => cases running.symm.trans exited
    | lost | begun | absent => rfl
  | begun _ unknown after =>
    cases deals' with
    | goes before => exact absurd (known before) unknown
    | ended _ gone => exact (somewhere after gone).elim
    | lost | begun | absent => rfl
  | absent nowhere gone =>
    cases deals' with
    | goes _ after => exact (somewhere after gone).elim
    | ended before => exact (somewhere before nowhere).elim
    | lost | begun | absent => rfl

/-- A fiber with books is not made yet, or its books tell its frames, or it is nowhere any more. -/
inductive Accounted (world : World σ) (id : FiberId) (ledger : Ledger σ) : Prop where
  | unmade (unknown : ¬world.heap.Knows id) (empty : ledger = {})
  | there {strand : Strand σ} (shows' : world.scene.Shows id strand) (tells : ledger.Tells strand)
  | gone (knows : world.heap.Knows id) (nowhere : world.places id = 0)
      (settled : ∀ exit, world.heap.poll id = some exit → ledger.held = [])

/-- The books of a fiber go on with what happens to its frames in one step. -/
def Books (run : Nat → World σ) (id : FiberId) (n : Nat) (ledger : Ledger σ) : Prop :=
  ∃ entries ledger', Deals run id n entries ∧ ledger.book entries = some ledger' ∧
    Accounted (run (n + 1)) id ledger'

theorem books_of_gone (h : Run run) (knows : (run n).heap.Knows id)
    (nowhere : (run n).places id = 0)
    (settled : ∀ exit, (run n).heap.poll id = some exit → ledger.held = []) :
    Books run id n ledger := by
  obtain ⟨fiber, present⟩ := knows.exists_fiber
  obtain ⟨nowhere', fiber', present', kept⟩ := (h.moves n).of_nowhere knows nowhere present
  have same : (run (n + 1)).heap.poll id = (run n).heap.poll id := by
    rw [Heap.poll_of_fiber? present]
    exact (Heap.poll_of_fiber? present').trans kept.exit
  exact ⟨[], ledger, .absent nowhere nowhere' same, rfl,
    .gone ((h.moves n).knows knows) nowhere' (same ▸ settled)⟩

theorem books_of_there (h : Run run) {strand : Strand σ}
    (shows' : (run n).scene.Shows id strand) (tells : ledger.Tells strand) :
    Books run id n ledger := by
  rcases shows'.moves (h.owned n) (h.moves n) with ⟨strand', shown, moves⟩ | ⟨gone, reaches⟩
  · obtain ⟨entries, ledger', deals, booked, tells'⟩ := tells.moves moves
    have effect : Strand.Interrupted strand strand' ↔ TakesEffect run id n := by
      rw [Strand.Interrupted, TakesEffect, ← shows'.isFinalizing, ← shown.isFinalizing]
      rfl
    rw [propext effect, ← shows'.status] at deals
    exact ⟨entries, ledger', .goes shows'.place shown.place deals, booked, .there shown tells'⟩
  · have knows := (h.moves n).knows shows'.knows
    cases exited : (run (n + 1)).heap.poll id with
    | some exit =>
      obtain ⟨ledger', booked, none⟩ := tells.ends (reaches exit exited)
      exact ⟨_, ledger', .ended shows'.place gone exited (reaches exit exited), booked,
        .gone knows gone fun _ _ => none⟩
    | none =>
      refine ⟨[], ledger, .lost shows'.place gone exited (h.loses shows'.place gone exited), rfl,
        .gone knows gone fun exit polled => ?_⟩
      cases exited.symm.trans polled

/-- A fiber that is made has not ended. -/
theorem Run.exitless_of_unknown (h : Run run) (unknown : ¬(run n).heap.Knows id)
    (known : (run (n + 1)).heap.Knows id) : (run (n + 1)).heap.poll id = none := by
  obtain ⟨fiber, present⟩ := known.exists_fiber
  rw [Heap.poll_of_fiber? present]
  cases h.moves n with
  | idle turn => exact turn.newcomers id fiber unknown known present
  | acted heap _ _ _ _ _ turn _ => exact turn.newcomers id fiber (heap ▸ unknown) known present

theorem poll_of_unknown {heap : Heap σ} {index : Nat} (unknown : ¬heap.Knows (.ofIndex index)) :
    heap.poll (.ofIndex index) = none := by
  have missing : heap.fiber? (.ofIndex index) = none :=
    Array.getElem?_eq_none_iff.mpr (Nat.le_of_not_lt fun small => unknown ⟨index, small, rfl⟩)
  rw [Heap.poll, missing]

theorem books_of_unmade (h : Run run) {index : Nat}
    (unknown : ¬(run n).heap.Knows (.ofIndex index)) :
    Books run (.ofIndex index) n ({} : Ledger σ) := by
  have nowhere : (run n).places (.ofIndex index) = 0 := (h.owned n).known _ unknown
  have exitless := poll_of_unknown unknown
  by_cases known : (run (n + 1)).heap.Knows (.ofIndex index)
  · have exitless' := h.exitless_of_unknown unknown known
    rcases h.begins unknown known with gone | ⟨effect, place⟩
    · refine ⟨[], {}, .absent nowhere gone (exitless'.trans exitless.symm), rfl,
        .gone known gone fun exit polled => ?_⟩
      cases exitless'.symm.trans polled
    · obtain ⟨fiber, present⟩ := known.exists_fiber
      have shown : (run (n + 1)).scene.Shows (.ofIndex index)
          ⟨.active (.node effect) [], fiber.holding, true⟩ :=
        ⟨known, place, ⟨fiber, present, rfl⟩, nofun⟩
      exact ⟨[], {}, .begun effect unknown place, rfl,
        .there shown (Ledger.tells_of_clear rfl (List.forall_mem_nil _))⟩
  · have nowhere' : (run (n + 1)).places (.ofIndex index) = 0 := (h.owned (n + 1)).known _ known
    exact ⟨[], {}, .absent nowhere nowhere' ((poll_of_unknown known).trans exitless.symm), rfl,
      .unmade known rfl⟩

/-! ### Runs -/

/-- The books of a fiber go on through the whole run. -/
theorem Run.exists_books (h : Run run) (fresh : (run 0).Fresh) (index : Nat) :
    ∃ entries : Nat → List (Entry σ), ∀ n, Deals run (.ofIndex index) n (entries n) ∧
      ∃ ledger, ({} : Ledger σ).book ((List.range n).flatMap entries) = some ledger ∧
        Accounted (run n) (.ofIndex index) ledger := by
  have next : ∀ n (ledger : Ledger σ), Accounted (run n) (.ofIndex index) ledger →
      Books run (.ofIndex index) n ledger := by
    intro n ledger accounted
    cases accounted with
    | unmade unknown empty => exact empty ▸ books_of_unmade h unknown
    | there shows' tells => exact books_of_there h shows' tells
    | gone knows nowhere settled => exact books_of_gone h knows nowhere settled
  choose! entries after deals booked accounted using next
  have unknown : ¬(run 0).heap.Knows (.ofIndex index) := by
    rintro ⟨_, small, _⟩
    rw [fresh.fibers] at small
    exact Nat.not_lt_zero _ small
  -- The ledger at each moment, with what was booked up to it.
  let ledgers : Nat → Ledger σ := fun n => Nat.rec {} (fun n ledger => after n ledger) n
  have kept : ∀ n, Accounted (run n) (.ofIndex index) (ledgers n) := by
    intro n
    induction n with
    | zero => exact .unmade unknown rfl
    | succ n ih => exact accounted n _ ih
  refine ⟨fun n => entries n (ledgers n), fun n => ⟨deals n _ (kept n), ledgers n, ?_, kept n⟩⟩
  induction n with
  | zero => rfl
  | succ n ih =>
    rw [List.range_succ, List.flatMap_append, List.flatMap_singleton, Ledger.book_append, ih]
    exact booked n _ (kept n)

theorem Accounted.frames {world : World σ} (accounted : Accounted world id ledger)
    (owned : world.scene.Owned) : ∀ place ∈ world.places id, ledger.frames = place.stack := by
  intro place mem
  cases accounted with
  | unmade unknown empty =>
    have none : world.places id = 0 := owned.known id unknown
    rw [none] at mem
    exact absurd mem (Multiset.notMem_zero place)
  | @there strand shows' tells =>
    have here : world.places id = {strand.place} := shows'.place
    rw [here] at mem
    rw [Multiset.mem_singleton.mp mem, tells.frames]
  | gone knows nowhere settled =>
    rw [nowhere] at mem
    exact absurd mem (Multiset.notMem_zero place)

theorem Accounted.settled {world : World σ} (accounted : Accounted world id ledger)
    (owned : world.scene.Owned) {exit : Exit Erased} (exited : world.heap.poll id = some exit) :
    ledger.held = [] := by
  cases accounted with
  | unmade unknown empty => rw [empty]
  | there shows' tells =>
    cases exited.symm.trans (owned.placed shows'.place).2
  | gone knows nowhere settled => exact settled exit exited

/-- The frames of every fiber of every run are used linearly. -/
theorem frames_linear (h : Run run) (fresh : (run 0).Fresh) (index : Nat) :
    Linear run (.ofIndex index) := by
  obtain ⟨entries, books⟩ := h.exists_books fresh index
  refine ⟨fun n => ⟨entries n, (books n).1, fun other deals => deals.unique h (books n).1⟩, ?_⟩
  intro entries' deals n
  obtain rfl : entries' = entries := funext fun n => (deals n).unique h (books n).1
  obtain ⟨_, ledger, booked, accounted⟩ := books n
  exact ⟨ledger, booked, Ledger.sound_book Ledger.sound_empty booked,
    accounted.frames (h.owned n), fun exit exited => accounted.settled (h.owned n) exited⟩

/-- The finalizer is skipped in this run, but no frame is lost: its fold runs on the value, and the
interruption that comes after it leaves a frame that never runs. -/
theorem frames_linear_skipped :
    let run := staged 0 (ensured interruptSelf)
    (run 0).Fresh ∧ Linear run ⟨1⟩ ∧
      Deals run ⟨1⟩ 2 [.pushed (.fold (.finalizer counted.node)) false] ∧
      Deals run ⟨1⟩ 6 [.used (.applied .unit)] ∧
      Deals run ⟨1⟩ 8 [.pushed (.apply (.constant (counted.node.andThen (.succeed .unit)))) true] ∧
      Deals run ⟨1⟩ 11 [.used .discarded] ∧
      (run 12).heap.poll ⟨1⟩ = some (.failure .interrupt) := by
  refine ⟨fresh_bare 0, frames_linear (run_staged 0 (ensured interruptSelf)) (fresh_bare 0) 0,
    ?_, ?_, ?_, ?_, rfl⟩
  · exact .goes rfl rfl (.entered [] rfl (by rintro ⟨_, ⟨⟩⟩))
  · exact .goes rfl rfl (.applied .unit _ [])
  · exact .goes rfl rfl (.replaced _ [] ⟨rfl, rfl⟩)
  · exact .ended rfl rfl rfl (.cause .interrupt [.constant _])

end World

end Fibers
