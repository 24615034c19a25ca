import Fibers.Proofs.Machine.Act
import Fibers.Proofs.Machine.Loop

/-!
# Who changes the environments of a fiber

The environments of a fiber are a stack that `provide` pushes and the finalizer behind it pops.

## Main result

`Machine.environments_step`: a step changes the environments of a fiber exactly if it interprets one
of these two nodes on a loop of that fiber.
-/

namespace Fibers

variable {σ : Type}

/-- A change of the environments of a fiber. -/
inductive ScopeChange where
  | enter (environment : Erased)
  | leave

/-- The environments after a change, innermost first. -/
def ScopeChange.apply (environments : List Erased) : ScopeChange → List Erased
  | .enter environment => environment :: environments
  | .leave => environments.tail

/-- The change that a node makes. -/
def Node.scopeChange? : Node σ → Option ScopeChange
  | .provide _ environment => some (.enter environment)
  | .leaveScope => some .leave
  | _ => none

/-- The change that the next step of a thread makes, and the fiber whose environments it changes. -/
def Thread.scopeChange? (thread : Thread σ) (heap : Heap σ) : Option (FiberId × ScopeChange) :=
  match thread.next? with
  | some (.loop id (.node current) _) =>
    if heap.shouldInterrupt id then none else current.scopeChange?.map fun change => (id, change)
  | _ => none

namespace Heap

variable {heap heap' : Heap σ} {id : FiberId}

/-- The environments of a fiber after a change, which may be of another fiber. -/
def environmentsWith (heap : Heap σ) (change : Option (FiberId × ScopeChange)) (id : FiberId) :
    List Erased :=
  match change with
  | some (owner, change) =>
    if owner.index = id.index then change.apply (heap.environments id) else heap.environments id
  | none => heap.environments id

theorem environments_of_fibers (same : heap'.fibers = heap.fibers) (id : FiberId) :
    heap'.environments id = heap.environments id := by
  rw [environments, environments, fiber?, fiber?, same]

@[simp] theorem environments_report (thread : ThreadId) (severity : Severity)
    (event : Unit → Event) :
    (heap.report thread severity event).environments id = heap.environments id :=
  environments_of_fibers (heap.tables_report thread severity event).1 id

@[simp] theorem environments_noteDefect (thread : ThreadId) (payload : Payload) :
    (heap.noteDefect thread payload).environments id = heap.environments id := by
  rw [noteDefect, environments_report]
  rfl

theorem environments_updateFiber (owner : FiberId) {f : FiberState σ → FiberState σ}
    (kept : ∀ state, (f state).environments = state.environments) :
    (heap.updateFiber owner f).environments id = heap.environments id := by
  rw [environments, environments, fiber?, fiber?, fibers_updateFiber]
  by_cases own : owner.index = id.index
  · rw [if_pos own]
    cases heap.fibers[id.index]? with
    | none => rfl
    | some state => exact kept state
  · rw [if_neg own]

/-- What a node does to the environments of a known fiber. -/
theorem environments_updateFiber_of_change (knows : heap.Knows id) (owner : FiberId)
    {change : ScopeChange} {f : FiberState σ → FiberState σ}
    (changes : ∀ state, (f state).environments = change.apply state.environments) :
    (heap.updateFiber owner f).environments id =
      heap.environmentsWith (some (owner, change)) id := by
  obtain ⟨fiber, present⟩ := knows.exists_fiber
  have own : heap.environments id = fiber.environments := by rw [environments, present]
  simp only [environmentsWith, own]
  rw [fiber?] at present
  rw [environments, fiber?, fibers_updateFiber, present]
  by_cases mine : owner.index = id.index
  · rw [if_pos mine, if_pos mine]
    exact changes fiber
  · rw [if_neg mine, if_neg mine]

theorem environments_of_kept {fiber fiber' : FiberState σ} (present : heap.fiber? id = some fiber)
    (present' : heap'.fiber? id = some fiber') (kept : fiber.Kept fiber') :
    heap'.environments id = heap.environments id := by
  rw [environments, present', environments, present]
  exact kept.environments

end Heap

namespace Machine

variable {heap heap' : Heap σ} {thread thread' : Thread σ} {id owner : FiberId}
  {stack : List (Frame σ)}

theorem environments_of_handover (handed : Handover heap thread heap' thread')
    (knows : heap.Knows id) : heap'.environments id = heap.environments id := by
  obtain ⟨fiber, present⟩ := knows.exists_fiber
  obtain ⟨fiber', present', kept⟩ := handed.fibers id.index fiber present
  exact Heap.environments_of_kept present present' kept

theorem environments_perform {α : Type} (knows : heap.Knows id) (keep : Code σ α → Activation σ)
    (code : Code σ α) :
    (perform heap thread keep code).1.environments id = heap.environments id := by
  obtain ⟨rest, _, handed⟩ := exists_perform_handover heap thread keep code
  exact environments_of_handover handed knows

theorem environments_completeFiber (ended : FiberId) (exit : Exit Erased) :
    (completeFiber heap thread ended exit).1.environments id = heap.environments id := by
  unfold completeFiber
  split
  · exact Heap.environments_report _ _ _ |>.trans <|
      heap.environments_updateFiber ended fun _ => rfl
  · rfl

theorem environments_unwindLoop (payload : Payload) (focus : Focus σ) :
    (unwindLoop heap thread payload owner stack focus).1.environments id =
      heap.environments id := by
  cases focus with
  | node | value | cause => rfl
  | thunk | raising | building | registering => exact Heap.environments_noteDefect _ _

theorem environments_interpret (knows : heap.Knows id) (current : Node σ) :
    (interpret heap thread owner stack current).1.environments id =
      heap.environmentsWith (current.scopeChange?.map fun change => (owner, change)) id := by
  have same {f : FiberState σ → FiberState σ}
      (kept : ∀ state, (f state).environments = state.environments) :
      (heap.updateFiber owner f).environments id = heap.environments id :=
    heap.environments_updateFiber owner kept
  cases current with
  | succeed | sync | fail | async => rfl
  | flatMap | fold => exact Heap.environments_report _ _ _
  | fork effect =>
    obtain ⟨event, reported, child, rfl, next, seed, unobserved, _, forked⟩ :=
      exists_fork_eq heap thread owner effect stack
    have knows' : (heap.report thread.id .debug event).Knows id :=
      ((heap.kept_report _ _ _).known id).mp knows
    have running : child.exit? = none := by rw [FiberState.exit?, unobserved]
    rw [interpret, forked, environments_of_handover (handover_start _ _ seed running false) knows',
      Heap.environments_report]
    rfl
  | shift executor =>
    refine (Heap.environments_of_fibers (executes_execute _ _ _ _).fibers id).trans ?_
    exact (Heap.environments_report _ _ _).trans (same fun _ => rfl)
  | withStatus | restoreStatus => exact same fun _ => rfl
  | provide effect environment =>
    exact Heap.environments_updateFiber_of_change knows owner fun _ => rfl
  | leaveScope => exact Heap.environments_updateFiber_of_change knows owner fun _ => rfl
  | access continuation =>
    simp only [interpret]
    split
    · rfl
    · rfl

/-- A loop changes environments only by interpreting a node. -/
theorem environments_stepLoop (knows : heap.Knows id) (focus : Focus σ) :
    (stepLoop heap thread owner stack focus).1.environments id =
      match focus with
      | .node current =>
        heap.environmentsWith (if heap.shouldInterrupt owner then none
          else current.scopeChange?.map fun change => (owner, change)) id
      | _ => heap.environments id := by
  have turn := turns_stepLoop heap thread owner stack focus
  generalize stepLoop heap thread owner stack focus = next at turn ⊢
  cases turn with
  | interrupts due =>
    simp only [due, if_true]
    exact (Heap.environments_report _ _ _).trans (heap.environments_updateFiber owner fun _ => rfl)
  | interprets undue =>
    simp only [undue, Bool.false_eq_true, if_false]
    exact environments_interpret knows _
  | delivers => exact Heap.environments_report _ _ _
  | succeeds | fails => exact environments_completeFiber owner _
  | handles => rfl
  | hands ended => cases ended <;> rfl
  | parks =>
    simp only [park]
    split
    · rfl
    · exact Heap.environments_report _ _ _
  | panics panics => cases panics <;> exact environments_unwindLoop _ _
  | requests holds => cases holds <;> exact environments_perform knows _ _

/-- A step changes the environments of a fiber only on a loop of that fiber, by entering a scope or
by leaving one. -/
theorem environments_step (knows : heap.Knows id) :
    (step heap thread).1.environments id =
      heap.environmentsWith (thread.scopeChange? heap) id := by
  by_cases looped : ∃ owner focus stack rest, thread.control = .loop owner focus stack :: rest
  · obtain ⟨owner, focus, stack, rest, control⟩ := looped
    cases panicking : thread.panicking with
    | none =>
      rw [step_of_next? heap panicking control, advance, environments_stepLoop knows]
      simp only [Thread.scopeChange?, Thread.next?, panicking, control, List.head?_cons]
      cases focus with
      | node => rfl
      | _ => rfl
    | some payload =>
      rw [step, control, panicking, Thread.scopeChange?, Thread.next?, panicking]
      exact environments_unwindLoop _ _
  · -- Without a loop, a step only hands work around.
    have none : thread.scopeChange? heap = none := by
      unfold Thread.scopeChange?
      split
      next owner current stack next =>
        obtain ⟨_, rest, control⟩ := Thread.next?_eq_some_iff.mp next
        exact absurd ⟨_, _, _, _, control⟩ looped
      next => rfl
    have idle : ∀ owner focus stack rest, thread.control ≠ .loop owner focus stack :: rest :=
      fun owner focus stack rest control => looped ⟨owner, focus, stack, rest, control⟩
    obtain ⟨fiber, present⟩ := knows.exists_fiber
    obtain ⟨fiber', present', kept⟩ :=
      (turn_step heap idle fun _ => False).fibers id fiber knows not_false present
    rw [none]
    exact Heap.environments_of_kept present present' kept

end Machine

end Fibers
